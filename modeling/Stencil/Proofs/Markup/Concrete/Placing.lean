import Stencil.Proofs.Markup.Concrete.Reading
import Stencil.Proofs.Markup.Placing

/-! Where hand-written pieces are found. The scan of a start tag declares its attributes whatever the quoting, each
piece is found after text that holds no `<`, and the cursor after it stands where the next piece begins. -/

namespace Stencil.Markup.Concrete

/-! ### Attributes -/

theorem notBlank_of_inName {c : Char} (h : inName c) : Text.isBlank c = false := by
  have range := range_of_inName h
  by_contra hb
  rcases Text.isBlank_bounds (by simpa using hb) with hb | hb <;> omega

theorem between_of_inName {c : Char} (h : inName c) : AttrScan.between? c = some (.name [c.toLower]) := by
  have stays := staysInName h
  simp [AttrScan.between?, notBlank_of_inName h, ne_of_inName h (d := '=') (by decide), stays.notSlash, stays.notClose]

/-- Any number of blanks, of which the first may complete an attribute. -/
theorem scans_blanks {s s' : AttrScan} {new : List Declared}
    (first : ∀ c, Text.isBlank c → s.step c = (new, some s'))
    (more : ∀ c, Text.isBlank c → s'.step c = ([], some s')) {cs : List Char} (hcs : cs.all isSpace) :
    Scans s cs (if cs = [] then s else s') (if cs = [] then [] else new) := by
  induction cs generalizing s new with
  | nil => exact Scans.nil s
  | cons c cs ih =>
    rw [List.all_cons, Bool.and_eq_true] at hcs
    have rest := ih more hcs.2
    rw [ite_self, ite_self] at rest
    rw [if_neg (List.cons_ne_nil c cs), if_neg (List.cons_ne_nil c cs)]
    simpa using Scans.cons (first c (isBlank_of_isSpace hcs.1)) rest

/-- The scan stands at the end of the name of a tag or of an attribute, with what is still to be declared. -/
inductive ScanEnded : AttrScan → List Declared → Prop
  | boundary {s : AttrScan} {old : List Declared} (h : ScanBoundary s old) : ScanEnded s old
  | unquoted (n : List Char) : ScanEnded (.unquoted n) (AttrScan.declare n true)

/-- The scan stands after blanks, with what is still to be declared. -/
inductive ScanReady : AttrScan → List Declared → Prop
  | between : ScanReady .between []
  | bare (n : List Char) (hn : n ≠ []) : ScanReady (.afterName n) [(n, false)]

theorem scans_gap {s : AttrScan} {old : List Declared} (hs : ScanEnded s old) {cs : List Char}
    (hcs : cs.all isSpace) (hne : cs ≠ []) :
    ∃ s' new old', ScanReady s' old' ∧ new ++ old' = old ∧ Scans s cs s' new := by
  have gap : ∀ {s' new}, (∀ c, Text.isBlank c → s.step c = (new, some s')) →
      (∀ c, Text.isBlank c → s'.step c = ([], some s')) → Scans s cs s' new := by
    intro s' new first more
    simpa only [if_neg hne] using scans_blanks first more hcs
  have between : ∀ c, Text.isBlank c → AttrScan.between.step c = ([], some .between) := fun c hc => by
    simp [AttrScan.step, AttrScan.between?, hc]
  cases hs with
  | boundary hs =>
    cases hs with
    | between => exact ⟨_, _, _, .between, rfl, gap between between⟩
    | bare n hn =>
      have first : ∀ c, Text.isBlank c → (AttrScan.name n).step c = ([], some (.afterName n)) := fun c hc => by
        simp [AttrScan.step, hc]
      exact ⟨_, _, _, .bare n hn, rfl, gap first fun c hc => by simp [AttrScan.step, hc]⟩
  | unquoted n =>
    have first : ∀ c, Text.isBlank c → (AttrScan.unquoted n).step c = (AttrScan.declare n true, some .between) :=
      fun c hc => by simp [AttrScan.step, hc]
    exact ⟨_, _, _, .between, List.append_nil _, gap first between⟩

theorem scans_nextName {s : AttrScan} {old : List Declared} (hs : ScanReady s old) (n : Name) :
    Scans s n.written (.name n.lowered) old := by
  have rest := scans_nameChars (fun c hc => ⟨n.stays c hc, notBlank_of_inName (n.inName c (List.mem_cons_of_mem _ hc)),
    ne_of_inName (n.inName c (List.mem_cons_of_mem _ hc)) (by decide)⟩) [n.first.toLower]
  have first : s.step n.first = (old, some (.name [n.first.toLower])) := by
    have hc := n.inName_first
    cases hs with
    | between => simp [AttrScan.step, between_of_inName hc]
    | bare m hm =>
      simp [AttrScan.step, AttrScan.declare, hm, notBlank_of_inName hc, ne_of_inName hc (d := '=') (by decide),
        between_of_inName hc]
  have whole := Scans.cons first rest
  rwa [List.append_nil] at whole

theorem scans_unquoted {n : List Char} {cs : List Char} (h : cs.all (holds .unquoted)) :
    Scans (.unquoted n) cs (.unquoted n) [] := by
  induction cs with
  | nil => exact Scans.nil _
  | cons c cs ih =>
    rw [List.all_cons, Bool.and_eq_true] at h
    have plain := h.1
    simp only [holds, Bool.and_eq_true, Bool.not_eq_true', decide_eq_true_eq, List.mem_cons, not_or] at plain
    have step : (AttrScan.unquoted n).step c = ([], some (.unquoted n)) := by simp [AttrScan.step, plain.2]
    exact Scans.silent step (ih h.2)

theorem scans_value (n : List Char) (v : Value) :
    ∃ s new old, ScanEnded s old ∧ new ++ old = AttrScan.declare n true ∧ Scans (.beforeValue n) v.written s new := by
  obtain ⟨q, cs, legal, notEmpty⟩ := v
  have inQuotes : ∀ q : Char, q = '"' ∨ q = '\'' → q ∉ cs →
      Scans (.beforeValue n) (q :: (cs ++ [q])) .between (AttrScan.declare n true) := by
    intro q hq hcs
    have opened : (AttrScan.beforeValue n).step q = ([], some (.quoted n q)) := by rcases hq with rfl | rfl <;> rfl
    have closed : (AttrScan.quoted n q).step q = (AttrScan.declare n true, some .between) := by simp [AttrScan.step]
    simpa using Scans.silent opened ((scans_quoted hcs).trans (Scans.cons closed (Scans.nil .between)))
  cases q with
  | double =>
    have apart : '"' ∉ cs := fun h => absurd (List.all_eq_true.1 legal _ h) (by decide)
    exact ⟨_, _, _, .boundary .between, List.append_nil _, inQuotes '"' (.inl rfl) apart⟩
  | single =>
    have apart : '\'' ∉ cs := fun h => absurd (List.all_eq_true.1 legal _ h) (by decide)
    exact ⟨_, _, _, .boundary .between, List.append_nil _, inQuotes '\'' (.inr rfl) apart⟩
  | unquoted =>
    obtain ⟨c, cs, rfl⟩ := List.exists_cons_of_ne_nil (notEmpty rfl)
    rw [List.all_cons, Bool.and_eq_true] at legal
    have plain := legal.1
    simp only [holds, Bool.and_eq_true, Bool.not_eq_true', decide_eq_true_eq, List.mem_cons, not_or] at plain
    have first : (AttrScan.beforeValue n).step c = ([], some (.unquoted n)) := by simp [AttrScan.step, plain.2]
    rw [Value.written, quote, List.append_nil, List.nil_append]
    exact ⟨_, _, _, .unquoted n, rfl, Scans.silent first (scans_unquoted legal.2)⟩

/-- An equals sign and a value, after the name of an attribute. -/
theorem scans_assigned (n : List Char) (a : Assigned) :
    ∃ s new old, ScanEnded s old ∧ new ++ old = AttrScan.declare n true ∧ Scans (.name n) a.written s new := by
  obtain ⟨before, after, v⟩ := a
  obtain ⟨s, new, old, ended, hnew, value⟩ := scans_value n v
  have gap : Scans (.name n) before.written (if before.written = [] then .name n else .afterName n) [] := by
    have first : ∀ c, Text.isBlank c → (AttrScan.name n).step c = ([], some (.afterName n)) :=
      fun c hc => by simp [AttrScan.step, hc]
    have more : ∀ c, Text.isBlank c → (AttrScan.afterName n).step c = ([], some (.afterName n)) :=
      fun c hc => by simp [AttrScan.step, hc]
    simpa using scans_blanks first more before.areSpaces
  have equals : Scans (if before.written = [] then .name n else .afterName n) ['='] (.beforeValue n) [] := by
    split <;> exact Scans.silent rfl (Scans.nil _)
  have blanks : Scans (.beforeValue n) after.written (.beforeValue n) [] := by
    have stays : ∀ c, Text.isBlank c → (AttrScan.beforeValue n).step c = ([], some (.beforeValue n)) :=
      fun c hc => by simp [AttrScan.step, hc]
    simpa using scans_blanks stays stays after.areSpaces
  refine ⟨s, new, old, ended, hnew, ?_⟩
  have whole := gap.trans (equals.trans (blanks.trans value))
  rw [Assigned.written]
  simpa using whole

/-- How an attribute is declared. -/
def Attr.declared (a : Attr) : Declared := (a.meaning.1, a.meaning.2.isSome)

theorem scans_attr {s : AttrScan} {old : List Declared} (hs : ScanEnded s old) (a : Attr) :
    ∃ s' new old', ScanEnded s' old' ∧ new ++ old' = old ++ [a.declared] ∧ Scans s a.written s' new := by
  obtain ⟨gap, hgap, name, assigned⟩ := a
  obtain ⟨s₁, new₁, old₁, ready, h₁, blanks⟩ := scans_gap hs gap.areSpaces hgap
  have named := blanks.trans (scans_nextName ready name)
  rw [h₁] at named
  cases assigned with
  | none =>
    have notEmpty : name.lowered ≠ [] := List.cons_ne_nil _ _
    exact ⟨_, _, _, .boundary (.bare name.lowered notEmpty), rfl, by simpa [Attr.written] using named⟩
  | some x =>
    obtain ⟨s₂, new₂, old₂, ended, h₂, value⟩ := scans_assigned name.lowered x
    refine ⟨s₂, old ++ new₂, old₂, ended, ?_, named.trans value⟩
    rw [List.append_assoc, h₂]
    rfl

theorem scans_attrs {s : AttrScan} {old : List Declared} (hs : ScanEnded s old) (as : List Attr) :
    ∃ s' new old', ScanEnded s' old' ∧ new ++ old' = old ++ as.map Attr.declared ∧
      Scans s (as.flatMap Attr.written) s' new := by
  induction as generalizing s old with
  | nil => exact ⟨s, [], old, hs, by simp, Scans.nil s⟩
  | cons a as ih =>
    obtain ⟨s₁, new₁, old₁, hs₁, h₁, scans₁⟩ := scans_attr hs a
    obtain ⟨s₂, new₂, old₂, hs₂, h₂, scans₂⟩ := ih hs₁
    refine ⟨s₂, new₁ ++ new₂, old₂, hs₂, ?_, scans₁.trans scans₂⟩
    rw [List.append_assoc, h₂, ← List.append_assoc, h₁]
    simp

/-- What closes a tag completes what is still to be declared. A slash after an unquoted value would do so too. -/
theorem run_closer {s : AttrScan} {old : List Declared} (hs : ScanEnded s old) (blanks : Blanks) (selfClosing : Bool)
    (rest : List Char) : s.run (blanks.written ++ closer selfClosing ++ rest) = (old, rest) := by
  rw [List.append_assoc]
  by_cases hne : blanks.written = []
  · rw [hne, List.nil_append]
    cases hs with
    | boundary hs => exact Markup.run_closer hs selfClosing rest
    | unquoted n => cases selfClosing <;> simp [closer, AttrScan.run, AttrScan.step, Text.isBlank]
  · obtain ⟨s', new, old', ready, hnew, gap⟩ := scans_gap hs blanks.areSpaces hne
    have closed : s'.run (closer selfClosing ++ rest) = (old', rest) := by
      cases ready with
      | between => cases selfClosing <;> rfl
      | bare n hn =>
        have declare : AttrScan.declare n false = [(n, false)] := by simp [AttrScan.declare, hn]
        cases selfClosing <;> simp [closer, AttrScan.run, AttrScan.step, AttrScan.between?, declare, Text.isBlank]
    rw [gap, closed, hnew]

/-- What a start tag declares after its name. -/
theorem declared_written (t : StartTag) (rest : List Char) :
    declared (t.attrs.flatMap Attr.written ++ (t.blanks.written ++ closer t.selfClosing ++ rest)) =
      (t.attrs.map Attr.declared, rest) := by
  obtain ⟨s, new, old, hs, hnew, scans⟩ := scans_attrs (.boundary .between) t.attrs
  rw [declared, scans, run_closer hs]
  rw [hnew, List.nil_append]

/-! ### Order -/

theorem firsts_map {α β γ : Type} [DecidableEq α] (f : α × β → γ) (as : List (α × β)) :
    firsts (as.map fun a => (a.1, f a)) = (firsts as).map fun a => (a.1, f a) := by
  induction as with
  | nil => rfl
  | cons a as ih =>
    rw [List.map_cons, firsts, firsts, List.map_cons, ih, List.filter_map]
    rfl

theorem nodup_firsts {α β : Type} [DecidableEq α] (as : List (α × β)) : ((firsts as).map Prod.fst).Nodup := by
  induction as with
  | nil => exact List.nodup_nil
  | cons a as ih =>
    rw [firsts, List.map_cons, List.nodup_cons]
    refine ⟨?_, ih.sublist (List.filter_sublist.map _)⟩
    simp

/-- What the reader and the scan have of an attribute. -/
def readPair (a : List Char × Option (List Char)) : List Char × List Char := (a.1, a.2.getD [])

def declaredPair (a : List Char × Option (List Char)) : Declared := (a.1, a.2.isSome)

/-- Of attributes of one name the first declaration takes the value, and the others find none. `left` tells which names
no declaration has taken yet. -/
theorem inDeclaredOrder_firsts (as : List (List Char × Option (List Char))) (left : List Char → Bool)
    {values : List (List Char × List Char)}
    (h : values.Perm (((firsts as).filter fun a => left a.1).map readPair)) :
    inDeclaredOrder values (as.map declaredPair) = (firsts as).filter fun a => left a.1 := by
  induction as generalizing left values with
  | nil => simp [inDeclaredOrder, firsts, List.Perm.eq_nil h]
  | cons a as ih =>
    have nodup : ((((firsts (a :: as)).filter fun b => left b.1).map readPair).map Prod.fst).Nodup := by
      rw [List.map_map]
      exact (nodup_firsts (a :: as)).sublist (List.filter_sublist.map _)
    have hvalues : (values.map Prod.fst).Nodup := (h.map Prod.fst).nodup_iff.2 nodup
    rw [firsts] at h nodup ⊢
    cases hleft : left a.1 with
    | true =>
      simp only [List.filter_cons, hleft, ↓reduceIte, List.filter_filter] at h nodup ⊢
      have lookup : values.lookup a.1 = some (readPair a).2 :=
        lookup_of_nodup hvalues (h.mem_iff.2 List.mem_cons_self)
      have later := ih (fun n => left n && n ≠ a.1) (filter_ne_perm h nodup)
      simp only [List.map_cons, declaredPair, inDeclaredOrder, lookup]
      refine List.cons_eq_cons.2 ⟨?_, later⟩
      obtain ⟨n, v⟩ := a
      cases v <;> rfl
    | false =>
      have same : ((firsts as).filter (·.1 ≠ a.1)).filter (fun b => left b.1) =
          (firsts as).filter fun b => left b.1 := by
        rw [List.filter_filter]
        refine List.filter_congr fun b _ => ?_
        have other : left b.1 → b.1 ≠ a.1 := fun hb heq => by simp [heq, hleft] at hb
        simpa using other
      rw [List.filter_cons_of_neg (by simp [hleft]), same] at h ⊢
      have lookup : values.lookup a.1 = none := by
        rw [List.lookup_eq_none_iff]
        intro b hb
        obtain ⟨b', hb', rfl⟩ := List.mem_map.1 (h.mem_iff.1 hb)
        have kept : left b'.1 = true := (List.mem_filter.1 hb').2
        have other : a.1 ≠ b'.1 := fun heq => Bool.false_ne_true (hleft.symm.trans (heq ▸ kept))
        simpa [readPair] using other
      simp only [List.map_cons, declaredPair, inDeclaredOrder, lookup]
      exact ih left h

theorem ordered_written (t : StartTag) : .startTag (String.ofList t.name.lowered)
    (ordered (firsts (t.attrs.map Attr.read)) (t.attrs.map Attr.declared)) t.selfClosing = t.kind := by
  have reads : t.attrs.map Attr.read = (t.attrs.map Attr.meaning).map readPair := by rw [List.map_map]; rfl
  have declares : t.attrs.map Attr.declared = (t.attrs.map Attr.meaning).map declaredPair := by rw [List.map_map]; rfl
  have kept : firsts (t.attrs.map Attr.read) =
      ((firsts (t.attrs.map Attr.meaning)).filter fun _ => true).map readPair := by
    rw [List.filter_true, reads]
    exact firsts_map (fun a : List Char × Option (List Char) => a.2.getD []) _
  have sorted : (Follower.sortAttrs (firsts (t.attrs.map Attr.read))).Perm _ := List.mergeSort_perm _ _
  rw [kept] at sorted
  rw [ordered, declares, kept, inDeclaredOrder_firsts _ (fun _ => true) sorted, List.filter_true]
  rfl

/-! ### Places -/

theorem upTo_append (before rest : List Char) (p : Position) :
    (Cursor.mk (before ++ rest) p).upTo rest = ⟨rest, past p before⟩ := by
  simp [Cursor.upTo, Cursor.forward, past]

theorem past_append (p : Position) (cs ds : List Char) : past p (cs ++ ds) = past (past p cs) ds := List.foldl_append

theorem lowered_lowered (n : Name) : n.lowered.map Char.toLower = n.written.map Char.toLower := by
  rw [Name.lowered, List.map_map]
  exact List.map_congr_left fun c _ => Text.toLower_toLower c

theorem endsTagName_blanks (blanks : Blanks) {rest : List Char} (h : endsTagName rest) :
    endsTagName (blanks.written ++ rest) := by
  obtain ⟨cs, hcs⟩ := blanks
  cases cs with
  | nil => exact h
  | cons c cs =>
    rw [List.all_cons, Bool.and_eq_true] at hcs
    simp [endsTagName, isBlank_of_isSpace hcs.1]

theorem endsTagName_closer (selfClosing : Bool) (rest : List Char) : endsTagName (closer selfClosing ++ rest) := by
  cases selfClosing <;> rfl

theorem endsTagName_attrs (as : List Attr) {rest : List Char} (h : endsTagName rest) :
    endsTagName (as.flatMap Attr.written ++ rest) := by
  cases as with
  | nil => exact h
  | cons a as =>
    obtain ⟨⟨cs, hcs⟩, hne, name, assigned⟩ := a
    obtain ⟨c, cs, rfl⟩ := List.exists_cons_of_ne_nil hne
    rw [List.all_cons, Bool.and_eq_true] at hcs
    simp [Attr.written, endsTagName, isBlank_of_isSpace hcs.1]

/-- A start tag is found after text that holds no tag. -/
theorem placeStart_written {before : List Char} (hbefore : '<' ∉ before) (t : StartTag) (rest : List Char)
    (p : Position) : Follower.placeStart ⟨before ++ (t.written ++ rest), p⟩ t.name.lowered =
      (past p before, t.attrs.map Attr.declared, ⟨rest, past p (before ++ t.written)⟩) := by
  have shape : t.written ++ rest = (['<'] ++ t.name.written) ++
      (t.attrs.flatMap Attr.written ++ (t.blanks.written ++ closer t.selfClosing ++ rest)) := by
    simp [StartTag.written]
  have ends : endsTagName (t.attrs.flatMap Attr.written ++ (t.blanks.written ++ closer t.selfClosing ++ rest)) := by
    rw [List.append_assoc]
    exact endsTagName_attrs _ (endsTagName_blanks _ (endsTagName_closer _ _))
  have name : afterTag? ['<'] t.name.lowered (t.written ++ rest) =
      some (t.attrs.flatMap Attr.written ++ (t.blanks.written ++ closer t.selfClosing ++ rest)) := by
    have same : (['<'] ++ t.name.lowered).map Char.toLower = (['<'] ++ t.name.written).map Char.toLower := by
      rw [List.map_append, List.map_append, lowered_lowered]
    rw [shape, afterTag?, afterName?_append same, Option.filter_some, ends, if_pos rfl]
  unfold Follower.placeStart
  rw [locate_after hbefore name]
  simp only [declared_written, upTo_append, past_append]

theorem notMem_blanks {c : Char} (hc : isSpace c = false) (blanks : Blanks) : c ∉ blanks.written := fun h =>
  absurd (List.all_eq_true.1 blanks.areSpaces c h) (by simp [hc])

theorem placeEnd_written {before : List Char} (hbefore : '<' ∉ before) (t : EndTag) (rest : List Char)
    (p : Position) : Follower.placeEnd ⟨before ++ (t.written ++ rest), p⟩ t.name.lowered =
      (past p before, ⟨rest, past p (before ++ t.written)⟩) := by
  have shape : t.written ++ rest = (['<', '/'] ++ t.name.written) ++ (t.blanks.written ++ '>' :: rest) := by
    simp [EndTag.written]
  have name : afterTag? ['<', '/'] t.name.lowered (t.written ++ rest) = some (t.blanks.written ++ '>' :: rest) := by
    have same : (['<', '/'] ++ t.name.lowered).map Char.toLower = (['<', '/'] ++ t.name.written).map Char.toLower := by
      rw [List.map_append, List.map_append, lowered_lowered]
    rw [shape, afterTag?, afterName?_append same, Option.filter_some,
      endsTagName_blanks _ (show endsTagName ('>' :: rest) from rfl), if_pos rfl]
  have close : pastClose (t.written ++ rest) = rest := by
    have apart : '>' ∉ '<' :: '/' :: t.name.written ++ t.blanks.written := by
      simp [notMem_name (c := '>') (by decide), notMem_blanks (c := '>') (by decide)]
    have closed := pastClose_append apart rest
    rwa [show '<' :: '/' :: t.name.written ++ t.blanks.written ++ '>' :: rest = t.written ++ rest by
      simp [EndTag.written]] at closed
  unfold Follower.placeEnd
  rw [locate_after hbefore name]
  simp only [close, upTo_append, past_append]

/-! ### Declarations -/

theorem pastDeclaration?_after {before : List Char} (h : '<' ∉ before) (rest : List Char) :
    pastDeclaration? (before ++ rest) = pastDeclaration? rest := by
  induction before with
  | nil => rfl
  | cons c before ih =>
    rw [List.mem_cons, not_or] at h
    rw [List.cons_append, pastDeclaration?, ih h.2]
    all_goals rintro _ rfl; exact absurd rfl h.1

theorem pastCommentEnd_append {body : List Char} (h : ¬ ['-', '-'] <:+: body) (rest : List Char) :
    pastCommentEnd (body ++ '-' :: '-' :: '>' :: rest) = rest := by
  induction body with
  | nil => rfl
  | cons c body ih =>
    have apart : ∀ tail, c = '-' → body ++ '-' :: '-' :: '>' :: rest = '-' :: '>' :: tail → False := by
      rintro tail rfl htail
      cases body with
      | nil => exact absurd (List.cons.inj (List.cons.inj htail).2).1 (by decide)
      | cons d body =>
        obtain rfl := (List.cons.inj htail).1
        exact h ⟨[], body, rfl⟩
    rw [List.cons_append, pastCommentEnd]
    · exact ih fun hd => h (hd.trans (List.suffix_cons c body).isInfix)
    · exact apart

theorem pastDeclaration?_written {before : List Char} (h : '<' ∉ before) (d : Declaration) (rest : List Char) :
    pastDeclaration? (before ++ (d.written ++ rest)) = some rest := by
  rw [pastDeclaration?_after h]
  cases d with
  | comment body legal =>
    have past := pastCommentEnd_append legal.noDashes rest
    simpa [Declaration.written, pastDeclaration?] using past
  | doctype body legal =>
    have apart : '>' ∉ ['D', 'O', 'C', 'T', 'Y', 'P', 'E'] ++ body := by simpa using legal
    have past := pastClose_append apart rest
    simpa [Declaration.written, pastDeclaration?] using past
  | instruction body legal =>
    have past := pastClose_append legal rest
    simpa [Declaration.written, pastDeclaration?] using past

end Stencil.Markup.Concrete
