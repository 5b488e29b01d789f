import Stencil.Proofs.Markup.ReadBack

/-! Where printed tags are found. The scan of a printed start tag finds its attributes as they are, unless a name holds
a blank or begins with an equals sign, and tags are found where they stand if no text before them holds a `<`. -/

namespace Stencil.Markup

theorem isSpace_bound {ch : Char} (h : isSpace ch) : ch.toNat ≤ 32 := by
  simp only [isSpace, Bool.or_eq_true, decide_eq_true_eq] at h
  rcases h with ((h | h) | h) | h <;> rw [h] <;> decide

/-- A character of a name that the scan of attributes takes as one. -/
structure IsPlainChar (c : Char) : Prop where
  name : IsNameChar c
  notBlank : Text.isBlank c = false
  notEquals : c ≠ '='

/-- From a state, `cs` leads to another state and completes attributes, whatever follows. -/
def Scans (s : AttrScan) (cs : List Char) (s' : AttrScan) (new : List Declared) : Prop :=
  ∀ rest, s.run (cs ++ rest) = (new ++ (s'.run rest).1, (s'.run rest).2)

namespace Scans

theorem nil (s : AttrScan) : Scans s [] s [] := fun _ => rfl

theorem trans {s s' s'' : AttrScan} {cs ds : List Char} {new new' : List Declared} (h : Scans s cs s' new)
    (h' : Scans s' ds s'' new') : Scans s (cs ++ ds) s'' (new ++ new') := by
  intro rest
  rw [List.append_assoc, h, h', List.append_assoc]

theorem cons {s s' s'' : AttrScan} {c : Char} {cs : List Char} {new new' : List Declared}
    (h : s.step c = (new, some s')) (h' : Scans s' cs s'' new') : Scans s (c :: cs) s'' (new ++ new') := by
  intro rest
  rw [List.cons_append, AttrScan.run, h]
  simp only [h' rest, List.append_assoc]

theorem silent {s s' s'' : AttrScan} {c : Char} {cs : List Char} {new : List Declared}
    (h : s.step c = ([], some s')) (h' : Scans s' cs s'' new) : Scans s (c :: cs) s'' new := h'.cons h

end Scans

/-- The scan stands between two attributes, and what is still to be declared. -/
inductive ScanBoundary : AttrScan → List Declared → Prop
  | between : ScanBoundary .between []
  | bare (n : List Char) (hn : n ≠ []) : ScanBoundary (.name n) [(n, false)]

theorem scans_nameChars {n : List Char} (h : ∀ c ∈ n, StaysInName c ∧ Text.isBlank c = false ∧ c ≠ '=') (m : List Char) :
    Scans (.name m) n (.name (m ++ n.map Char.toLower)) [] := by
  induction n generalizing m with
  | nil => simpa using Scans.nil (.name m)
  | cons c n ih =>
    obtain ⟨hstays, hblank, hequals⟩ := h c List.mem_cons_self
    have step : (AttrScan.name m).step c = ([], some (.name (m ++ [c.toLower]))) := by
      simp [AttrScan.step, hblank, hequals, hstays.notSlash, hstays.notClose]
    have rest := ih (fun d hd => h d (List.mem_cons_of_mem _ hd)) (m ++ [c.toLower])
    rw [List.append_assoc] at rest
    exact Scans.silent step rest

theorem scans_name {n : List Char} (hn : ∀ c ∈ n, IsPlainChar c) (m : List Char) :
    Scans (.name m) n (.name (m ++ n)) [] := by
  have name := scans_nameChars (fun c hc => ⟨(hn c hc).name.stays, (hn c hc).notBlank, (hn c hc).notEquals⟩) m
  have lowered : n.map Char.toLower = n := by
    rw [List.map_congr_left fun c hc => toLower_of_isNameChar (hn c hc).name, List.map_id']
  rwa [lowered] at name

theorem scans_nextName {s : AttrScan} {old : List Declared} (hs : ScanBoundary s old) {n : List Char} (hne : n ≠ [])
    (hn : ∀ c ∈ n, IsPlainChar c) : Scans s (' ' :: n) (.name n) old := by
  obtain ⟨c, cs, rfl⟩ := List.exists_cons_of_ne_nil hne
  obtain ⟨hname, hblank, hequals⟩ := hn c List.mem_cons_self
  have first : AttrScan.between? c = some (.name [c]) := by
    simp [AttrScan.between?, hblank, hequals, hname.notSlash, hname.notClose, toLower_of_isNameChar hname]
  have rest := scans_name (fun d hd => hn d (List.mem_cons_of_mem _ hd)) [c]
  cases hs with
  | between =>
    have step : AttrScan.between.step c = ([], some (.name [c])) := by rw [AttrScan.step, first]
    exact Scans.silent rfl (Scans.silent step rest)
  | bare m hm =>
    have declare : AttrScan.declare m false = [(m, false)] := by simp [AttrScan.declare, hm]
    have step : (AttrScan.afterName m).step c = ([(m, false)], some (.name [c])) := by
      simp [AttrScan.step, hblank, hequals, first, declare]
    exact Scans.silent rfl (rest.cons step)

theorem scans_quoted {n : List Char} {q : Char} {w : List Char} (hw : q ∉ w) :
    Scans (.quoted n q) w (.quoted n q) [] := by
  induction w with
  | nil => exact Scans.nil _
  | cons c w ih =>
    rw [List.mem_cons, not_or] at hw
    have step : (AttrScan.quoted n q).step c = ([], some (.quoted n q)) := by simp [AttrScan.step, Ne.symm hw.1]
    exact Scans.silent step (ih hw.2)

/-- A quoted value holds its quote nowhere. -/
theorem quote_notMem {q : Char} {quoting : Quoting} (hq : IsQuote q quoting) {w : List Char}
    (hsingle : quoting = .single → q ∉ w) : q ∉ w.flatMap (quotedChar q) := by
  intro h
  obtain ⟨c, hc, h⟩ := List.mem_flatMap.1 h
  unfold quotedChar at h
  split at h
  · cases hq <;> exact absurd h (by decide)
  · split at h
    · next hcq =>
      cases hq with
      | double => exact absurd h (by decide)
      | single => exact hsingle rfl (hcq ▸ hc)
    · next hcq => exact hcq (List.mem_singleton.1 h).symm

theorem scans_value {n : List Char} (hne : n ≠ []) (v : String) :
    Scans (.name n) ('=' :: (Render.quoteAttr v).toList) .between [(n, true)] := by
  obtain ⟨q, quoting, hq, hsingle, hchars⟩ := quoteAttr_eq v
  rw [hchars]
  have equals : (AttrScan.name n).step '=' = ([], some (.beforeValue n)) := rfl
  have opened : (AttrScan.beforeValue n).step q = ([], some (.quoted n q)) := by
    cases hq <;> rfl
  have closed : (AttrScan.quoted n q).step q = ([(n, true)], some .between) := by
    simp [AttrScan.step, AttrScan.declare, hne]
  exact Scans.silent equals (Scans.silent opened
    ((scans_quoted (quote_notMem hq hsingle)).trans (Scans.cons closed (Scans.nil .between))))

/-- How an attribute is declared. -/
def declaredAttr (a : String × Option String) : Declared := (a.1.toList, a.2.isSome)

/-- A name of an attribute that the scan finds as it is. -/
structure IsPlainName (n : List Char) : Prop where
  notEmpty : n ≠ []
  chars : ∀ c ∈ n, IsPlainChar c

theorem scans_attr {s : AttrScan} {old : List Declared} (hs : ScanBoundary s old) {a : String × Option String}
    (ha : IsPlainName a.1.toList) :
    ∃ s' new old', ScanBoundary s' old' ∧ new ++ old' = old ++ [declaredAttr a] ∧ Scans s (attrChars a) s' new := by
  obtain ⟨n, v⟩ := a
  have name := scans_nextName hs ha.notEmpty ha.chars
  cases v with
  | none =>
    refine ⟨_, old, _, .bare n.toList ha.notEmpty, rfl, ?_⟩
    rw [attrChars_none]
    exact name
  | some v =>
    refine ⟨_, _, _, .between, List.append_nil _, ?_⟩
    rw [attrChars_some]
    exact name.trans (scans_value ha.notEmpty v)

theorem scans_attrs {s : AttrScan} {old : List Declared} (hs : ScanBoundary s old)
    {attrs : List (String × Option String)} (ha : ∀ a ∈ attrs, IsPlainName a.1.toList) :
    ∃ s' new old', ScanBoundary s' old' ∧ new ++ old' = old ++ attrs.map declaredAttr ∧
      Scans s (attrs.flatMap attrChars) s' new := by
  induction attrs generalizing s old with
  | nil => exact ⟨s, [], old, hs, by simp, Scans.nil s⟩
  | cons a attrs ih =>
    obtain ⟨s₁, new₁, old₁, hs₁, h₁, scans₁⟩ := scans_attr hs (ha a List.mem_cons_self)
    obtain ⟨s₂, new₂, old₂, hs₂, h₂, scans₂⟩ := ih hs₁ (fun b hb => ha b (List.mem_cons_of_mem _ hb))
    refine ⟨s₂, new₁ ++ new₂, old₂, hs₂, ?_, scans₁.trans scans₂⟩
    rw [List.append_assoc, h₂, ← List.append_assoc, h₁]
    simp

theorem run_closer {s : AttrScan} {old : List Declared} (hs : ScanBoundary s old) (selfClosing : Bool)
    (rest : List Char) : s.run (closer selfClosing ++ rest) = (old, rest) := by
  cases hs with
  | between => cases selfClosing <;> rfl
  | bare n hn =>
    have declare : AttrScan.declare n false = [(n, false)] := by simp [AttrScan.declare, hn]
    cases selfClosing <;> simp [closer, AttrScan.run, AttrScan.step, AttrScan.between?, declare, Text.isBlank]

theorem declared_print {attrs : List (String × Option String)} (ha : ∀ a ∈ attrs, IsPlainName a.1.toList)
    (selfClosing : Bool) (rest : List Char) :
    declared (attrs.flatMap attrChars ++ closer selfClosing ++ rest) = (attrs.map declaredAttr, rest) := by
  obtain ⟨s, new, old, hs, hnew, scans⟩ := scans_attrs .between ha
  rw [declared, List.append_assoc, scans, run_closer hs]
  rw [hnew, List.nil_append]

/-! ### Order -/

theorem filter_ne_perm {attrs values : List (List Char × List Char)} {a : List Char × List Char}
    (h : values.Perm (a :: attrs)) (hnodup : ((a :: attrs).map Prod.fst).Nodup) :
    (values.filter (·.1 != a.1)).Perm attrs := by
  have kept : (a :: attrs).filter (·.1 != a.1) = attrs := by
    rw [List.filter_cons_of_neg (by simp), List.filter_eq_self]
    intro b hb
    rw [List.map_cons, List.nodup_cons] at hnodup
    simpa using fun heq : b.1 = a.1 => hnodup.1 (heq ▸ List.mem_map_of_mem hb)
  have filtered := h.filter (·.1 != a.1)
  rwa [kept] at filtered

/-- Attributes that are declared as they are keep their order, and those without a value have none again. -/
theorem inDeclaredOrder_self {attrs : List (String × Option String)} (hnodup : (attrs.map Prod.fst).Nodup)
    {values : List (List Char × List Char)} (h : values.Perm (attrs.map readAttr)) :
    inDeclaredOrder values (attrs.map declaredAttr) = attrs.map fun a => (a.1.toList, a.2.map String.toList) := by
  induction attrs generalizing values with
  | nil => simp [inDeclaredOrder, List.Perm.eq_nil h]
  | cons a attrs ih =>
    have hread := nodup_readAttrs hnodup
    have hvalues : (values.map Prod.fst).Nodup := (h.map Prod.fst).nodup_iff.2 hread
    have lookup : values.lookup a.1.toList = some (readAttr a).2 :=
      lookup_of_nodup hvalues (h.mem_iff.2 List.mem_cons_self)
    have rest := ih (List.nodup_cons.1 hnodup).2 (filter_ne_perm h hread)
    obtain ⟨n, v⟩ := a
    simp only [List.map_cons, declaredAttr, inDeclaredOrder, lookup]
    refine List.cons_eq_cons.2 ⟨?_, rest⟩
    cases v <;> rfl

theorem ordered_self {attrs : List (String × Option String)} (hnodup : (attrs.map Prod.fst).Nodup) :
    ordered (attrs.map readAttr) (attrs.map declaredAttr) = attrs := by
  have same : ∀ a ∈ attrs, (String.ofList a.1.toList, (a.2.map String.toList).map String.ofList) = a := by
    rintro ⟨n, v⟩ -
    cases v <;> simp
  have sorted : (Follower.sortAttrs (attrs.map readAttr)).Perm (attrs.map readAttr) := List.mergeSort_perm _ _
  rw [ordered, inDeclaredOrder_self hnodup sorted, List.map_map]
  exact (List.map_congr_left same).trans (List.map_id' attrs)

/-! ### Places -/

/-- A name is found in capital or small letters. -/
theorem afterName?_append {n m : List Char} (h : n.map Char.toLower = m.map Char.toLower) (rest : List Char) :
    afterName? n (m ++ rest) = some rest := by
  induction n generalizing m with
  | nil =>
    obtain rfl : m = [] := List.map_eq_nil_iff.1 h.symm
    rfl
  | cons c n ih =>
    cases m with
    | nil => cases h
    | cons d m =>
      obtain ⟨hcd, hnm⟩ := List.cons.inj h
      rw [List.cons_append, afterName?, if_pos hcd]
      exact ih hnm

theorem pastClose_append {body : List Char} (h : '>' ∉ body) (rest : List Char) :
    pastClose (body ++ '>' :: rest) = rest := by
  have skipped : ∀ c ∈ body, decide (c ≠ '>') = true := fun c hc => by simpa using fun heq : c = '>' => h (heq ▸ hc)
  rw [pastClose, List.dropWhile_append_of_pos skipped]
  rfl

theorem locate_after {opening name before tag after : List Char} (hbefore : '<' ∉ before)
    (htag : afterTag? ('<' :: opening) name tag = some after) :
    locate ('<' :: opening) name (before ++ tag) = some (tag, after) := by
  induction before with
  | nil =>
    cases tag with
    | nil => simp [afterTag?, afterName?] at htag
    | cons c cs => simp [locate, htag]
  | cons c before ih =>
    rw [List.mem_cons, not_or] at hbefore
    have other : ('<' : Char).toLower ≠ c.toLower := fun h =>
      hbefore.1 (Text.toLower_eq_of_small (by decide) h.symm).symm
    have skip : afterTag? ('<' :: opening) name (c :: before ++ tag) = none := by
      rw [afterTag?, List.cons_append, List.cons_append, afterName?, if_neg other]
      rfl
    rw [List.cons_append, locate, ← List.cons_append, skip]
    exact ih hbefore.2

/-- A token that is found where it stands, and does not hide a tag after it. -/
def TokenKind.IsPlain : TokenKind → Prop
  | .text s => '<' ∉ s.toList
  | .startTag _ attrs _ => ∀ a ∈ attrs, IsPlainName a.1.toList
  | _ => True

theorem endsTagName_attrs (attrs : List (String × Option String)) (selfClosing : Bool) (rest : List Char) :
    endsTagName (attrs.flatMap attrChars ++ closer selfClosing ++ rest) = true := by
  cases attrs with
  | nil => cases selfClosing <;> rfl
  | cons a attrs =>
    obtain ⟨n, v⟩ := a
    have first : ∃ cs, attrChars (n, v) = ' ' :: cs := by
      cases v with
      | none => exact ⟨_, attrChars_none n⟩
      | some v => exact ⟨_, attrChars_some n v⟩
    obtain ⟨cs, hcs⟩ := first
    rw [List.flatMap_cons, hcs]
    rfl

theorem startAt_print {before : List Char} (hbefore : '<' ∉ before) (name : String)
    {attrs : List (String × Option String)} (ha : ∀ a ∈ attrs, IsPlainName a.1.toList) (selfClosing : Bool)
    (rest : List Char) :
    startAt name.toList (before ++ ((TokenKind.startTag name attrs selfClosing).print ++ rest)) =
      (attrs.map declaredAttr, rest) := by
  have tag : afterTag? ['<'] name.toList ((TokenKind.startTag name attrs selfClosing).print ++ rest) =
      some (attrs.flatMap attrChars ++ closer selfClosing ++ rest) := by
    have shape : (TokenKind.startTag name attrs selfClosing).print ++ rest =
        (['<'] ++ name.toList) ++ (attrs.flatMap attrChars ++ closer selfClosing ++ rest) := by
      simp [TokenKind.print]
    rw [shape, afterTag?, afterName?_append rfl, Option.filter_some, endsTagName_attrs, if_pos rfl]
  rw [startAt, locate_after hbefore tag]
  exact declared_print ha selfClosing rest

theorem endAt_print {before : List Char} (hbefore : '<' ∉ before) {name : String} (hname : '>' ∉ name.toList)
    (rest : List Char) : endAt name.toList (before ++ ((TokenKind.endTag name).print ++ rest)) = rest := by
  have shape : (TokenKind.endTag name).print ++ rest = (['<', '/'] ++ name.toList) ++ ('>' :: rest) := by
    simp [TokenKind.print]
  have tag : afterTag? ['<', '/'] name.toList ((TokenKind.endTag name).print ++ rest) = some ('>' :: rest) := by
    rw [shape, afterTag?, afterName?_append rfl]
    rfl
  have apart : '>' ∉ ['<', '/'] ++ name.toList := by simpa using hname
  rw [endAt, locate_after hbefore tag]
  simp only [shape, pastClose_append apart]

theorem Lawful.of_fits_endTag {content : Content} {name : String} (h : (TokenKind.endTag name).Fits content) :
    IsTagName name.toList := by
  cases content <;> exact h.1

theorem placed_of_plain {content : Content} {ks : List TokenKind} (hlawful : Lawful content ks)
    (hplain : ∀ k ∈ ks, k.IsPlain) {before : List Char} (hbefore : '<' ∉ before) :
    Placed (before ++ printKinds ks) ks := by
  induction ks generalizing content before with
  | nil => trivial
  | cons k ks ih =>
    have rest := fun {before : List Char} (hb : '<' ∉ before) =>
      ih hlawful.2 (fun l hl => hplain l (List.mem_cons_of_mem _ hl)) hb
    have hk := hplain k List.mem_cons_self
    have next : Placed ([] ++ printKinds ks) ks := rest (by simp)
    rw [printKinds_cons]
    cases k with
    | text s =>
      refine ⟨rfl, ?_⟩
      -- the text stays before the next tag, which cannot be found in it
      change Placed (before ++ (s.toList ++ printKinds ks)) ks
      rw [← List.append_assoc]
      exact rest (by simpa using ⟨hbefore, hk⟩)
    | startTag name attrs selfClosing =>
      have start := startAt_print hbefore name hk selfClosing (printKinds ks)
      have hnodup : (attrs.map Prod.fst).Nodup := by
        cases content with
        | markup => exact hlawful.1.2.2
        | plain n => exact hlawful.1.elim
        | script n part => exact hlawful.1.elim
      refine ⟨?_, ?_⟩
      · rw [TokenKind.found, start, ordered_self hnodup]
      · rw [TokenKind.past, start]
        exact next
    | endTag name =>
      have hname : '>' ∉ name.toList := fun h => ((Lawful.of_fits_endTag hlawful.1).chars _ h).notClose rfl
      refine ⟨rfl, ?_⟩
      rw [TokenKind.past, endAt_print hbefore hname]
      exact next
    | eof => cases content <;> exact hlawful.1.elim

end Stencil.Markup
