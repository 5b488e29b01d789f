import Stencil.Proofs.Markup.Concrete
import Stencil.Proofs.Markup.TagProgress

/-! How pieces of hand-written markup are read. Each piece leads the reader from text to text. In a tag the reader is
either at the end of a name or attribute (`Ended`) or, after blanks, where an attribute may begin (`Ready`). -/

namespace Stencil.Markup.Concrete

/-! ### Characters -/

theorem ne_of_inName {c d : Char} (h : inName c) (hd : inName d = false) : c ≠ d := by
  rintro rfl
  exact absurd h (by simp [hd])

theorem range_of_inName {c : Char} (h : inName c) : 45 ≤ c.toNat ∧ c.toNat ≤ 122 := by
  unfold inName at h
  simp only [Bool.or_eq_true, decide_eq_true_eq, Char.isAlphanum] at h
  rcases h with (((h | h) | rfl) | rfl) | rfl
  · rcases Text.isAlpha_iff.1 h with h | h <;> omega
  · simp only [Char.isDigit, Bool.and_eq_true, decide_eq_true_eq, ge_iff_le, UInt32.le_iff_toNat_le] at h
    have low : (48 : Nat) ≤ c.toNat := h.1
    have high : c.toNat ≤ (57 : Nat) := h.2
    omega
  all_goals decide

theorem inName_of_isAlpha {c : Char} (h : c.isAlpha) : inName c := by simp [inName, Char.isAlphanum, h]

theorem isSpace_cases {c : Char} (h : isSpace c) : c = ' ' ∨ c = '\t' ∨ c = '\n' ∨ c = '\x0c' := by
  simpa [isSpace, or_assoc] using h

theorem isBlank_of_isSpace {c : Char} (h : isSpace c) : Text.isBlank c := by
  rcases isSpace_cases h with rfl | rfl | rfl | rfl <;> decide

theorem nameChar_of_inName {c : Char} (h : inName c) : nameChar c = c.toLower := by
  have notNull : c.toLower ≠ '\x00' := fun hc =>
    ne_of_inName h (by decide) (Text.toLower_eq_of_small (by decide) hc)
  rw [nameChar, shown, if_neg notNull]

theorem staysInName {c : Char} (h : inName c) : StaysInName c where
  notSpace := by
    by_contra hs
    rcases isSpace_cases (by simpa using hs) with rfl | rfl | rfl | rfl <;> exact absurd h (by decide)
  notSlash := ne_of_inName h (by decide)
  notClose := ne_of_inName h (by decide)
  notReturn := ne_of_inName h (by decide)

theorem notReturn_of_isSpace {c : Char} (h : isSpace c) : c ≠ '\r' := by
  rintro rfl
  exact absurd h (by decide)

theorem Name.inName_first (n : Name) : inName n.first := inName_of_isAlpha n.first_isAlpha

theorem Name.inName (n : Name) : ∀ c ∈ n.written, inName c := by
  intro c hc
  rcases List.mem_cons.1 hc with rfl | hc
  · exact n.inName_first
  · exact List.all_eq_true.1 n.others_inName c hc

theorem Name.stays (n : Name) : ∀ c ∈ n.others, StaysInName c := fun c hc =>
  staysInName (n.inName c (List.mem_cons_of_mem _ hc))

theorem notMem_name {c : Char} (hc : Concrete.inName c = false) (n : Name) : c ∉ n.written := fun h =>
  absurd (n.inName c h) (by simp [hc])

theorem Name.map_nameChar (n : Name) : n.first.toLower :: n.others.map nameChar = n.lowered := by
  have others : n.others.map nameChar = n.others.map Char.toLower :=
    List.map_congr_left fun c hc => nameChar_of_inName (n.inName c (List.mem_cons_of_mem _ hc))
  rw [others]
  rfl

/-! ### Blanks -/

/-- Any number of blanks, of which the first may lead to another state. -/
theorem reads_blanks {s s' : State} (first : ∀ p c, isSpace c → s.step p c = (s', []))
    (more : ∀ p c, isSpace c → s'.step p c = (s', [])) {cs : List Char} (hcs : cs.all isSpace) (p : Nat) :
    Reads p s cs (if cs = [] then s else s') [] := by
  induction cs generalizing s p with
  | nil => exact Reads.nil p s
  | cons c cs ih =>
    rw [List.all_cons, Bool.and_eq_true] at hcs
    have rest := ih more hcs.2 (p + 1)
    rw [ite_self] at rest
    rw [if_neg (List.cons_ne_nil c cs)]
    exact Reads.silent (notReturn_of_isSpace hcs.1) (first p c hcs.1) rest

/-! ### Attributes -/

/-- The reader stands at the end of the name of a tag or of an attribute of it, and `inValue` tells whether a value
could go on. In each case `tag` is what it has of the tag. -/
inductive Ended : State → OpenTag → Bool → Prop
  | boundary {s : State} {tag : OpenTag} (h : AtBoundary s tag) : Ended s tag false
  | unquoted (tag : OpenTag) (n v : List Char) : Ended (.value tag n .unquoted v none) (tag.addAttr n v) true

/-- The reader stands after blanks, where an attribute may begin. -/
inductive Ready : State → OpenTag → Prop
  | between (tag : OpenTag) : Ready (.beforeAttr tag) tag
  | bare (tag : OpenTag) (n : List Char) : Ready (.afterAttrName tag n) (tag.addAttr n [])

theorem Ended.space {s : State} {tag : OpenTag} {inValue : Bool} (h : Ended s tag inValue) :
    ∃ s', Ready s' tag ∧ ∀ p c, isSpace c → s.step p c = (s', []) := by
  cases h with
  | boundary h =>
    cases h with
    | name => exact ⟨_, .between tag, fun p c hc => by simp [State.step, hc]⟩
    | value => exact ⟨_, .between tag, fun p c hc => by simp [State.step, attrStep, hc]⟩
    | bare tag n => exact ⟨_, .bare tag n, fun p c hc => by simp [State.step, attrNameStep, hc]⟩
  | unquoted tag n v =>
    refine ⟨_, .between _, fun p c hc => ?_⟩
    have hamp : c ≠ '&' := by
      rintro rfl
      exact absurd hc (by decide)
    simp [State.step, valueStep, hc, hamp]

theorem Ready.space {s : State} {tag : OpenTag} (h : Ready s tag) (p : Nat) (c : Char) (hc : isSpace c) :
    s.step p c = (s, []) := by
  cases h with
  | between => simp [State.step, attrStep, hc]
  | bare => simp [State.step, afterAttrNameStep, hc]

/-- Blanks, of which there is at least one. -/
theorem reads_gap {s : State} {tag : OpenTag} {inValue : Bool} (hs : Ended s tag inValue) {cs : List Char}
    (hcs : cs.all isSpace) (hne : cs ≠ []) : ∃ s', Ready s' tag ∧ ∀ p, Reads p s cs s' [] := by
  obtain ⟨s', ready, step⟩ := hs.space
  refine ⟨s', ready, fun p => ?_⟩
  have gap := reads_blanks step ready.space hcs p
  rwa [if_neg hne] at gap

theorem reads_nextName {s : State} {tag : OpenTag} (hs : Ready s tag) (n : Name) (p : Nat) :
    Reads p s n.written (.attrName tag n.lowered) [] := by
  have stays := staysInName n.inName_first
  have equals := notMem_name (c := '=') (by decide) n
  rw [Name.written, List.mem_cons, not_or] at equals
  have first : s.step p n.first = (.attrName tag [n.first.toLower], []) := by
    have lowered := nameChar_of_inName n.inName_first
    cases hs with
    | between => simp [State.step, attrStep, stays.notSpace, slashStep_of_staysInName stays, lowered]
    | bare =>
      simp [State.step, afterAttrNameStep, stays.notSpace, Ne.symm equals.1, slashStep_of_staysInName stays, lowered]
  have rest := reads_attrChars tag [n.first.toLower] n.stays equals.2 (p + 1)
  rw [List.singleton_append, n.map_nameChar] at rest
  exact Reads.silent stays.notReturn first rest

section Values

variable {tag : OpenTag} {n : List Char} {q : Quoting}

theorem notReturn_of_holds {c : Char} (h : holds q c) : c ≠ '\r' := by
  simp only [holds, Bool.and_eq_true, decide_eq_true_eq] at h
  exact h.1.1.2

theorem notSpace_of_holds {c : Char} (h : holds .unquoted c) : isSpace c = false := by
  simp only [holds, Bool.and_eq_true, Bool.not_eq_true'] at h
  by_contra hs
  exact absurd (isBlank_of_isSpace (by simpa using hs)) (by simp [h.2.1])

/-- A character that a value may hold goes to that value. -/
theorem valueStep_of_holds {c : Char} (h : holds q c) (v : List Char) :
    valueStep tag n q v c = (.value tag n q (v ++ [c]) none, []) := by
  have notSpace := fun hq : q = .unquoted => notSpace_of_holds (hq ▸ h)
  simp only [holds, Bool.and_eq_true, decide_eq_true_eq] at h
  obtain ⟨⟨⟨hamp, -⟩, hnull⟩, h⟩ := h
  cases q with
  | double => simp [valueStep, hamp, shown, hnull, show c ≠ '"' by simpa using h]
  | single => simp [valueStep, hamp, shown, hnull, show c ≠ '\'' by simpa using h]
  | unquoted =>
    simp only [Bool.and_eq_true, decide_eq_true_eq, List.mem_cons, not_or] at h
    simp [valueStep, hamp, shown, hnull, notSpace rfl, h.2.1]

theorem reads_valueChars (v : List Char) {cs : List Char} (h : cs.all (holds q)) (p : Nat) :
    Reads p (.value tag n q v none) cs (.value tag n q (v ++ cs) none) [] := by
  induction cs generalizing v p with
  | nil => simpa using Reads.nil p (.value tag n q v none)
  | cons c cs ih =>
    rw [List.all_cons, Bool.and_eq_true] at h
    have rest := ih (v ++ [c]) h.2 (p + 1)
    rw [List.append_assoc] at rest
    exact Reads.silent (notReturn_of_holds h.1) (valueStep_of_holds h.1 v) rest

/-- The first character of an unquoted value, which is handed on to the step of the value. -/
theorem beforeValueStep_of_holds {c : Char} (h : holds .unquoted c) :
    beforeValueStep tag n c = (.value tag n .unquoted [c] none, []) := by
  have step : valueStep tag n .unquoted [] c = (.value tag n .unquoted [c] none, []) := valueStep_of_holds h []
  have notSpace := notSpace_of_holds h
  simp only [holds, Bool.and_eq_true, decide_eq_true_eq, List.mem_cons, not_or] at h
  simp [beforeValueStep, notSpace, h.2.2.2.1, h.2.2.2.2.1, step]

theorem reads_value (v : Value) :
    ∃ s, Ended s (tag.addAttr n v.chars) (v.quoting = .unquoted) ∧ ∀ p, Reads p (.beforeValue tag n) v.written s [] := by
  obtain ⟨q, cs, legal, notEmpty⟩ := v
  have chars : ∀ p, Reads p (.value tag n q [] none) cs (.value tag n q cs none) [] := reads_valueChars [] legal
  cases q with
  | double =>
    exact ⟨_, .boundary (.value _), fun p => (Reads.silent (by decide) rfl (chars _)).trans (Reads.one (by decide) rfl)⟩
  | single =>
    exact ⟨_, .boundary (.value _), fun p => (Reads.silent (by decide) rfl (chars _)).trans (Reads.one (by decide) rfl)⟩
  | unquoted =>
    refine ⟨_, .unquoted tag n cs, fun p => ?_⟩
    obtain ⟨c, cs, rfl⟩ := List.exists_cons_of_ne_nil (notEmpty rfl)
    rw [List.all_cons, Bool.and_eq_true] at legal
    rw [Value.written, quote, List.append_nil, List.nil_append]
    exact Reads.silent (notReturn_of_holds legal.1) (beforeValueStep_of_holds legal.1)
      (reads_valueChars [c] legal.2 (p + 1))

/-- An equals sign and a value, after the name of an attribute. -/
theorem reads_assigned (a : Assigned) :
    ∃ s, Ended s (tag.addAttr n a.value.chars) (a.value.quoting = .unquoted) ∧
      ∀ p, Reads p (.attrName tag n) a.written s [] := by
  obtain ⟨before, after, v⟩ := a
  obtain ⟨s, hs, value⟩ := reads_value v
  have gap : ∀ p, Reads p (.attrName tag n) before.written
      (if before.written = [] then .attrName tag n else .afterAttrName tag n) [] :=
    reads_blanks (fun p c hc => by simp [State.step, attrNameStep, hc]) (Ready.bare tag n).space before.areSpaces
  have equals : ∀ p, Reads p (if before.written = [] then .attrName tag n else .afterAttrName tag n) ['=']
      (.beforeValue tag n) [] := by
    intro p
    split <;> exact Reads.one (by decide) rfl
  have blanks : ∀ p, Reads p (.beforeValue tag n) after.written (.beforeValue tag n) [] := by
    have stays : ∀ p c, isSpace c → State.step p (.beforeValue tag n) c = (.beforeValue tag n, []) :=
      fun p c hc => by simp [State.step, beforeValueStep, hc]
    simpa using fun p => reads_blanks stays stays after.areSpaces p
  refine ⟨s, hs, fun p => ?_⟩
  have whole := (gap p).trans ((equals _).trans ((blanks _).trans (value _)))
  rw [Assigned.written]
  simpa using whole

end Values

/-- What is read of an attribute: one without a value has the empty value. -/
def Attr.read (a : Attr) : List Char × List Char := (a.meaning.1, a.meaning.2.getD [])

theorem reads_attr {s : State} {tag : OpenTag} {inValue : Bool} (hs : Ended s tag inValue) (a : Attr) :
    ∃ s', Ended s' (tag.take a.read) a.isUnquoted ∧ ∀ p, Reads p s a.written s' [] := by
  obtain ⟨gap, hgap, name, assigned⟩ := a
  obtain ⟨s₁, ready, blanks⟩ := reads_gap hs gap.areSpaces hgap
  have named : ∀ p, Reads p s (gap.written ++ name.written) (.attrName tag name.lowered) [] :=
    fun p => (blanks p).trans (reads_nextName ready name _)
  cases assigned with
  | none => exact ⟨_, .boundary (.bare tag name.lowered), by simpa [Attr.written] using named⟩
  | some x =>
    obtain ⟨s', ended, value⟩ := reads_assigned x
    exact ⟨s', ended, fun p => (named p).trans (value _)⟩

theorem reads_attrs {s : State} {tag : OpenTag} {inValue : Bool} (hs : Ended s tag inValue) (as : List Attr) :
    ∃ s', Ended s' ((as.map Attr.read).foldl OpenTag.take tag) ((as.getLast?.map Attr.isUnquoted).getD inValue) ∧
      ∀ p, Reads p s (as.flatMap Attr.written) s' [] := by
  induction as generalizing s tag inValue with
  | nil => exact ⟨s, hs, fun p => Reads.nil p s⟩
  | cons a as ih =>
    obtain ⟨s₁, hs₁, h₁⟩ := reads_attr hs a
    obtain ⟨s₂, hs₂, h₂⟩ := ih hs₁
    refine ⟨s₂, ?_, fun p => (h₁ p).trans (h₂ _)⟩
    rw [List.getLast?_cons, Option.map_some, Option.getD_some, ← Option.getD_map Attr.isUnquoted]
    exact hs₂

/-- Of attributes of one name a tag takes the first. -/
theorem foldl_take_firsts (tag : OpenTag) (as : List (List Char × List Char)) :
    as.foldl OpenTag.take tag =
      { tag with attrs := tag.attrs ++ (firsts as).filter (·.1 ∉ tag.attrs.map Prod.fst) } := by
  induction as generalizing tag with
  | nil => simp [firsts]
  | cons a as ih =>
    obtain ⟨n, v⟩ := a
    rw [List.foldl_cons, ih, firsts, OpenTag.take, OpenTag.addAttr]
    by_cases taken : n ∈ tag.attrs.map Prod.fst
    · rw [if_pos taken, List.filter_cons_of_neg (by simpa using taken), List.filter_filter]
      congr 2
      refine List.filter_congr fun b _ => ?_
      have other : b.1 ∉ tag.attrs.map Prod.fst → b.1 ≠ n := fun h hb => h (hb ▸ taken)
      simpa using other
    · rw [if_neg taken, List.filter_cons_of_pos (by simpa using taken), List.filter_filter, List.append_assoc,
        List.singleton_append]
      congr 3
      refine List.filter_congr fun b _ => ?_
      rw [← Bool.decide_and, decide_eq_decide, List.map_append, List.mem_append, not_or]
      simp

/-! ### Whole tags -/

theorem reads_closer {s : State} {tag : OpenTag} {inValue : Bool} (hs : Ended s tag inValue) (blanks : Blanks)
    {selfClosing : Bool} (apart : selfClosing = true → blanks.written = [] → inValue = false) (p : Nat) :
    Reads p s (blanks.written ++ closer selfClosing) (tag.close selfClosing).1 (tag.close selfClosing).2 := by
  by_cases hne : blanks.written = []
  · rw [hne, List.nil_append]
    cases hs with
    | boundary hs => exact Markup.reads_closer hs selfClosing p
    | unquoted tag n v =>
      obtain rfl : selfClosing = false := Bool.eq_false_iff.2 fun h => absurd (apart h hne) (by decide)
      exact Reads.one (by decide) rfl
  · obtain ⟨s', ready, gap⟩ := reads_gap hs blanks.areSpaces hne
    refine (gap p).trans ?_
    cases selfClosing with
    | false => cases ready <;> exact Reads.one (by decide) rfl
    | true => cases ready <;> exact Reads.silent (by decide) rfl (Reads.one (by decide) rfl)

theorem reads_endTag (t : EndTag) (p : Nat) :
    Reads p (.text .markup none) t.written (.text .markup none) [.endTag p t.name.lowered] := by
  have name := reads_endOf t.name.first_isAlpha t.name.stays p
  rw [t.name.map_nameChar] at name
  have close : ∀ p', Reads p' (.tagName ⟨p, true, t.name.lowered, []⟩) (t.blanks.written ++ closer false)
      (.text .markup none) [.endTag p t.name.lowered] := reads_closer (.boundary (.name _)) t.blanks nofun
  rw [EndTag.written, List.append_assoc]
  exact name.trans (close _)

/-- What is read of a start tag. -/
def StartTag.event (t : StartTag) (p : Nat) : Event :=
  .startTag p t.name.lowered (firsts (t.attrs.map Attr.read)) t.selfClosing

theorem StartTag.content_eq (t : StartTag) : Content.ofStartTag t.name.lowered t.selfClosing = .markup := by
  have other : ∀ n ∈ ["script", "style", "title", "textarea"], t.name.lowered ≠ n.toList :=
    fun n hn h => t.holdsMarkup (h ▸ List.mem_map_of_mem hn)
  unfold Content.ofStartTag
  split
  · rfl
  · rw [if_neg (not_or.2 ⟨other _ (by simp), other _ (by simp)⟩),
      if_neg (not_or.2 ⟨other _ (by simp), other _ (by simp)⟩)]

theorem reads_startTag (t : StartTag) (p : Nat) :
    Reads p (.text .markup none) t.written (.text .markup none) [t.event p] := by
  obtain ⟨s, hs, attrs⟩ := reads_attrs (.boundary (.name ⟨p, false, t.name.lowered, []⟩)) t.attrs
  have apart : t.selfClosing = true → t.blanks.written = [] →
      (t.attrs.getLast?.map Attr.isUnquoted).getD false = false := by
    intro hclosing hblanks
    have apart := t.slashApart hclosing hblanks
    cases h : t.attrs.getLast? with
    | none => rfl
    | some a => simpa [h] using apart
  have close := reads_closer hs t.blanks apart
  rw [foldl_take_firsts] at close
  have close : ∀ p', Reads p' s (t.blanks.written ++ closer t.selfClosing) (.text .markup none) [t.event p] := by
    simpa [OpenTag.close, t.content_eq, StartTag.event] using close
  have name := reads_startOf t.name.first_isAlpha t.name.stays p
  rw [t.name.map_nameChar] at name
  have whole := (name.trans (attrs _)).trans (close _)
  rwa [← List.append_assoc] at whole

/-! ### Text -/

namespace TextPart

/-- The character that a part stands for. -/
def char : TextPart → Char
  | plain c _ => c
  | amp => '&'
  | lt => '<'
  | gt => '>'
  | quot => '"'

theorem inToken_eq (part : TextPart) : part.inToken = (Follower.escape part.char).toList := by
  cases part with
  | plain c legal =>
    simp only [List.mem_cons, not_or] at legal
    simp [inToken, char, Follower.escape, legal]
  | _ => rfl

end TextPart

theorem spelled_gt : Reference.spelled? false .start ['g', 't', ';'] = some ['>'] := by decide +kernel

theorem spelled_quot : Reference.spelled? false .start ['q', 'u', 'o', 't', ';'] = some ['"'] := by decide +kernel

theorem reads_textPart (part : TextPart) (p : Nat) :
    Reads p (.text .markup none) part.written (.text .markup none) [.text part.char] := by
  have amp : State.step p (.text .markup none) '&' = (.text .markup (some .start), []) := rfl
  cases part with
  | plain c legal =>
    simp only [List.mem_cons, not_or] at legal
    exact Reads.one legal.2.2.1 (by simp [State.step, textStep, legal, TextPart.char])
  | amp => exact Reads.silent (by decide) amp (reads_reference (by decide) (spelled_amp false) _)
  | lt => exact Reads.silent (by decide) amp (reads_reference (by decide) spelled_lt _)
  | gt => exact Reads.silent (by decide) amp (reads_reference (by decide) spelled_gt _)
  | quot => exact Reads.silent (by decide) amp (reads_reference (by decide) spelled_quot _)

theorem reads_text (parts : List TextPart) (p : Nat) :
    Reads p (.text .markup none) (parts.flatMap TextPart.written) (.text .markup none)
      (texts (parts.map TextPart.char)) := by
  induction parts generalizing p with
  | nil => exact Reads.nil p _
  | cons part parts ih => exact (reads_textPart part p).trans (ih _)

/-! ### Declarations -/

/-- What does not end a comment if nothing but `-->` follows. -/
structure IsInner (body : List Char) : Prop where
  noDashes : ¬ ['-', '-'] <:+: body
  noLastDash : ¬ ['-'] <:+ body

theorem IsInner.tail {c : Char} {body : List Char} (h : IsInner (c :: body)) : IsInner body where
  noDashes hd := h.noDashes (hd.trans (List.suffix_cons c body).isInfix)
  noLastDash hd := h.noLastDash (hd.trans (List.suffix_cons c body))

theorem IsInner.ne_dash {c : Char} {body : List Char} (h : IsInner ('-' :: c :: body)) : c ≠ '-' := by
  rintro rfl
  exact h.noDashes ⟨[], body, rfl⟩

theorem not_isInner_dash : ¬ IsInner ['-'] := fun h => h.noLastDash (List.suffix_refl _)

/-- The reader stands in a declaration, after a carriage return or not, with `body` and `signs` to come. -/
inductive Inside : DeclarationPart → Bool → List Char → List Char → Prop
  | simple (afterReturn : Bool) {body : List Char} (h : '>' ∉ body) : Inside .simple afterReturn body ['>']
  | start {body : List Char} (h : IsCommentBody body) : Inside .start false body ['-', '-', '>']
  | startDash {body : List Char} (h : IsInner ('-' :: body)) (hclose : ¬ ['>'] <+: body) :
    Inside .startDash false body ['-', '-', '>']
  | body (afterReturn : Bool) {body : List Char} (h : IsInner body) : Inside .body afterReturn body ['-', '-', '>']
  | dash {body : List Char} (h : IsInner ('-' :: body)) : Inside .dash false body ['-', '-', '>']

/-- A newline after a carriage return is left out, where it would make no difference. -/
theorem step_inDeclaration {part part' : DeclarationPart} {afterReturn : Bool} {c : Char}
    (step : part.step (if c = '\r' then '\n' else c) = some part') (skipped : afterReturn → c = '\n' → part = part')
    (p : Nat) : Reader.step ⟨.declaration part, p, afterReturn⟩ c = (⟨.declaration part', p + 1, c = '\r'⟩, []) := by
  unfold Reader.step
  split
  · next h => simp [← skipped h.2 h.1, h.1]
  · simp [State.step, step]

theorem read_ne {c d : Char} (h : c ≠ d) (hd : d ≠ '\n') : (if c = '\r' then '\n' else c) ≠ d := by
  split
  · exact hd.symm
  · exact h

/-- One more character of the body. -/
theorem Inside.step {part : DeclarationPart} {afterReturn : Bool} {c : Char} {body signs : List Char}
    (h : Inside part afterReturn (c :: body) signs) : ∃ part', Inside part' (c = '\r') body signs ∧
      ∀ p, Reader.step ⟨.declaration part, p, afterReturn⟩ c = (⟨.declaration part', p + 1, c = '\r'⟩, []) := by
  cases h with
  | simple _ h =>
    rw [List.mem_cons, not_or] at h
    have hc := read_ne (Ne.symm h.1) (by decide)
    exact ⟨.simple, .simple _ h.2, step_inDeclaration (by simp [DeclarationPart.step, hc]) fun _ _ => rfl⟩
  | start h =>
    have inner : IsInner (c :: body) := ⟨h.noDashes, h.noLastDash⟩
    by_cases hdash : c = '-'
    · subst hdash
      have hclose : ¬ ['>'] <+: body := fun hp => h.notDashClosed ((List.prefix_cons_inj '-').2 hp)
      exact ⟨.startDash, .startDash inner hclose, fun p => rfl⟩
    · have hclose : c ≠ '>' := by
        rintro rfl
        exact h.notClosed ⟨body, rfl⟩
      have step : DeclarationPart.start.step (if c = '\r' then '\n' else c) = some .body := by
        simp [DeclarationPart.step, read_ne hdash, read_ne hclose]
      exact ⟨.body, .body _ inner.tail, step_inDeclaration step nofun⟩
  | startDash h hclose =>
    have hclose : c ≠ '>' := by
      rintro rfl
      exact hclose ⟨body, rfl⟩
    have step : DeclarationPart.startDash.step (if c = '\r' then '\n' else c) = some .body := by
      simp [DeclarationPart.step, read_ne h.ne_dash, read_ne hclose]
    exact ⟨.body, .body _ h.tail.tail, step_inDeclaration step nofun⟩
  | body _ h =>
    by_cases hdash : c = '-'
    · subst hdash
      exact ⟨.dash, .dash h, step_inDeclaration rfl fun _ hc => absurd hc (by decide)⟩
    · have step : DeclarationPart.body.step (if c = '\r' then '\n' else c) = some .body := by
        simp [DeclarationPart.step, read_ne hdash]
      exact ⟨.body, .body _ h.tail, step_inDeclaration step fun _ _ => rfl⟩
  | dash h =>
    have step : DeclarationPart.dash.step (if c = '\r' then '\n' else c) = some .body := by
      simp [DeclarationPart.step, read_ne h.ne_dash]
    exact ⟨.body, .body _ h.tail.tail, step_inDeclaration step nofun⟩

theorem Inside.close {part : DeclarationPart} {afterReturn : Bool} {signs : List Char}
    (h : Inside part afterReturn [] signs) (p : Nat) : Reader.run ⟨.declaration part, p, afterReturn⟩ signs =
      (⟨.text .markup none, p + signs.length, false⟩, [.declaration]) := by
  cases h with
  | simple => rfl
  | start => rfl
  | startDash h => exact absurd h not_isInner_dash
  | body => rfl
  | dash h => exact absurd h not_isInner_dash

theorem Inside.run {part : DeclarationPart} {afterReturn : Bool} {body signs : List Char}
    (h : Inside part afterReturn body signs) (p : Nat) :
    Reader.run ⟨.declaration part, p, afterReturn⟩ (body ++ signs) =
      (⟨.text .markup none, p + (body ++ signs).length, false⟩, [.declaration]) := by
  induction body generalizing part afterReturn p with
  | nil => exact h.close p
  | cons c body ih =>
    obtain ⟨part', rest, step⟩ := h.step
    simp only [List.cons_append, Reader.run, step, ih rest, List.length_cons, List.nil_append]
    rw [Nat.add_right_comm, Nat.add_assoc]

theorem reads_declaration (d : Declaration) (p : Nat) :
    Reads p (.text .markup none) d.written (.text .markup none) [.declaration] := by
  cases d with
  | comment body legal =>
    have opened : Reads p (.text .markup none) ['<', '!', '-', '-'] (.declaration .start) [] := rfl
    exact opened.trans ((Inside.start legal).run _)
  | doctype body legal =>
    have opened : Reads p (.text .markup none) ['<', '!', 'D'] (.declaration .simple) [] := rfl
    have rest : '>' ∉ ['O', 'C', 'T', 'Y', 'P', 'E'] ++ body := by simpa using legal
    exact opened.trans ((Inside.simple false rest).run _)
  | instruction body legal =>
    have opened : Reads p (.text .markup none) ['<', '?'] (.declaration .simple) [] := rfl
    exact opened.trans ((Inside.simple false legal).run _)

/-! ### Sources -/

/-- What is read of a piece at a place. -/
def Piece.events (p : Nat) : Piece → List Event
  | text parts => texts (parts.map TextPart.char)
  | declaration _ => [.declaration]
  | startTag t => [t.event p]
  | endTag t => [.endTag p t.name.lowered]

def eventsFrom (p : Nat) : List Piece → List Event
  | [] => []
  | x :: xs => x.events p ++ eventsFrom (p + x.written.length) xs

theorem reads_piece (x : Piece) (p : Nat) :
    Reads p (.text .markup none) x.written (.text .markup none) (x.events p) := by
  cases x with
  | text parts => exact reads_text parts p
  | declaration d => exact reads_declaration d p
  | startTag t => exact reads_startTag t p
  | endTag t => exact reads_endTag t p

theorem reads_written (xs : List Piece) (p : Nat) :
    Reads p (.text .markup none) (written xs) (.text .markup none) (eventsFrom p xs) := by
  induction xs generalizing p with
  | nil => exact Reads.nil p _
  | cons x xs ih => exact (reads_piece x p).trans (ih _)

theorem events_written (xs : List Piece) : events (written xs) = eventsFrom 0 xs := by
  have whole : Reader.start.run (written xs) = _ := reads_written xs 0
  simp [events, whole, State.finish]

end Stencil.Markup.Concrete
