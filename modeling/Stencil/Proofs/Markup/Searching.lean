import Stencil.Proofs.Markup.Concrete.Placing

/-! What a cursor passes over. It searches the text for tags and declarations that may follow; two texts are alike if it
finds the same in both. What turned out to be no tag is passed over as if it were not there. -/

namespace Stencil.Markup

def opening (isEnd : Bool) : List Char := if isEnd then ['<', '/'] else ['<']

/-- The tags that may come next in a content. -/
structure Content.Seeks (content : Content) (isEnd : Bool) (name : List Char) : Prop where
  isTagName : IsTagName name
  fits : content = .markup ∨ (isEnd ∧ name = content.name)

/-- In both texts a cursor finds the same. -/
structure Content.Alike (content : Content) (s t : List Char) : Prop where
  tags : ∀ {isEnd name}, content.Seeks isEnd name → locate (opening isEnd) name s = locate (opening isEnd) name t
  declarations : content = .markup → pastDeclaration? s = pastDeclaration? t

theorem Content.Alike.refl (content : Content) (s : List Char) : content.Alike s s := ⟨fun _ => rfl, fun _ => rfl⟩

theorem Content.Alike.trans {content : Content} {s t u : List Char} (h : content.Alike s t) (h' : content.Alike t u) :
    content.Alike s u :=
  ⟨fun hseeks => (h.tags hseeks).trans (h'.tags hseeks), fun hm => (h.declarations hm).trans (h'.declarations hm)⟩

theorem afterName?_cons_of_ne {n c : Char} (h : n.toLower ≠ c.toLower) (ns cs : List Char) :
    afterName? (n :: ns) (c :: cs) = none := by rw [afterName?, if_neg h]

theorem isAlpha_of_toLower_eq {c d : Char} (hc : c.isAlpha) (h : c.toLower = d.toLower) : d.isAlpha := by
  have lowered : d.toLower.isAlpha := h ▸ Text.isAlpha_toLower hc
  rw [Text.isAlpha_iff] at lowered ⊢
  rcases Text.toLower_cases d with ⟨hd, -⟩ | ⟨h1, h2, -⟩
  · rwa [hd] at lowered
  · exact .inl ⟨h1, h2⟩

theorem toLower_ne {c d : Char} (hc : c.isAlpha) (hd : d.isAlpha = false) : c.toLower ≠ d.toLower := fun h => by
  rw [isAlpha_of_toLower_eq hc h] at hd
  cases hd

theorem slash_toLower_ne {c : Char} (h : c ≠ '/') : ('/' : Char).toLower ≠ c.toLower := fun heq =>
  h (Text.toLower_eq_of_small (by decide) heq.symm)

theorem locate_of_afterTag? {o name : List Char} {c : Char} {cs : List Char} (h : afterTag? o name (c :: cs) = none) :
    locate o name (c :: cs) = locate o name cs := by rw [locate, h]

section Passing

variable {content : Content} {c : Char} {s : List Char}

/-- A `<` that opens none of the tags that are sought, and no declaration. -/
theorem Content.alike_less (tags : ∀ isEnd name, content.Seeks isEnd name → afterTag? (opening isEnd) name ('<' :: s) = none)
    (declarations : content = .markup → pastDeclaration? ('<' :: s) = pastDeclaration? s) : content.Alike ('<' :: s) s :=
  ⟨fun hseeks => locate_of_afterTag? (tags _ _ hseeks), declarations⟩

theorem Content.alike_cons (content : Content) (hc : c ≠ '<') (s : List Char) : content.Alike (c :: s) s where
  tags := by
    intro isEnd name _
    have other : ('<' : Char).toLower ≠ c.toLower := fun h => hc (Text.toLower_eq_of_small (by decide) h.symm)
    apply locate_of_afterTag?
    cases isEnd <;> simp [afterTag?, opening, afterName?_cons_of_ne other]
  declarations _ :=
    have apart : '<' ∉ [c] := by simpa using hc.symm
    Concrete.pastDeclaration?_after apart s

theorem Content.alike_append (content : Content) {before : List Char} (h : '<' ∉ before) (s : List Char) :
    content.Alike (before ++ s) s := by
  induction before with
  | nil => exact .refl content s
  | cons c before ih =>
    rw [List.mem_cons, not_or] at h
    exact (content.alike_cons (Ne.symm h.1) _).trans (ih h.2)

theorem pastDeclaration?_less (hbang : c ≠ '!') (hquestion : c ≠ '?') (s : List Char) :
    pastDeclaration? ('<' :: c :: s) = pastDeclaration? (c :: s) := by
  rw [pastDeclaration?]
  · rintro _ - heq
    exact hbang (List.cons.inj heq).1
  · rintro _ - heq
    exact hbang (List.cons.inj heq).1
  · rintro _ - heq
    exact hquestion (List.cons.inj heq).1

/-- In markup, a `<` before a character that begins neither a tag nor a declaration. -/
theorem Content.alike_lessOther (ha : c.isAlpha = false) (hslash : c ≠ '/') (hbang : c ≠ '!') (hquestion : c ≠ '?')
    (s : List Char) : Content.markup.Alike ('<' :: c :: s) (c :: s) := by
  refine alike_less (fun isEnd name hseeks => ?_) fun _ => pastDeclaration?_less hbang hquestion s
  obtain ⟨a, as, rfl, halpha⟩ := hseeks.isTagName.head
  cases isEnd with
  | true =>
    change (afterName? ('/' :: a :: as) (c :: s)).filter _ = _
    rw [afterName?_cons_of_ne (slash_toLower_ne hslash)]
    rfl
  | false =>
    change (afterName? (a :: as) (c :: s)).filter _ = _
    rw [afterName?_cons_of_ne (toLower_ne halpha ha)]
    rfl

theorem Content.alike_lessClose (s : List Char) : Content.markup.Alike ('<' :: '/' :: '>' :: s) s := by
  refine .trans (alike_less (fun isEnd name hseeks => ?_) fun _ => pastDeclaration?_less (by decide) (by decide) _)
    (markup.alike_append (show '<' ∉ ['/', '>'] by decide) s)
  obtain ⟨a, as, rfl, halpha⟩ := hseeks.isTagName.head
  cases isEnd with
  | true =>
    change (afterName? (a :: as) ('>' :: s)).filter _ = _
    rw [afterName?_cons_of_ne (toLower_ne halpha (by decide))]
    rfl
  | false =>
    change (afterName? (a :: as) ('/' :: '>' :: s)).filter _ = _
    rw [afterName?_cons_of_ne (toLower_ne halpha (by decide))]
    rfl

theorem Content.Seeks.isEnd {isEnd : Bool} {name : List Char} (h : content.Seeks isEnd name)
    (hne : content ≠ .markup) : isEnd = true ∧ name = content.name := h.fits.resolve_left hne

/-- Outside of markup, a `<` that no slash follows. -/
theorem Content.alike_endLess (hne : content ≠ .markup) (hslash : c ≠ '/') (s : List Char) :
    content.Alike ('<' :: c :: s) (c :: s) := by
  refine alike_less (fun isEnd name hseeks => ?_) fun hm => absurd hm hne
  obtain ⟨rfl, rfl⟩ := hseeks.isEnd hne
  change (afterName? ('/' :: content.name) (c :: s)).filter _ = _
  rw [afterName?_cons_of_ne (slash_toLower_ne hslash)]
  rfl

theorem afterName?_letters {name letters : List Char} (hname : ∀ d ∈ name, d.isAlpha ∧ d.toLower = d)
    (hletters : ∀ d ∈ letters, d.isAlpha) (hc : c.isAlpha = false)
    (h : ¬ (letters.map Char.toLower = name ∧ endsTagName [c])) :
    (afterName? name (letters ++ c :: s)).filter endsTagName = none := by
  induction name generalizing letters with
  | nil =>
    rw [afterName?, Option.filter_eq_none_iff]
    rintro _ ⟨⟩ hends
    cases letters with
    | nil => exact h ⟨rfl, hends⟩
    | cons d letters =>
      have hd := Text.isAlpha_iff.1 (hletters d List.mem_cons_self)
      simp only [List.cons_append, endsTagName, Bool.or_eq_true, decide_eq_true_eq] at hends
      rcases hends with (hblank | rfl) | rfl
      · have := Text.isBlank_bounds hblank
        omega
      · exact absurd hd (by decide)
      · exact absurd hd (by decide)
  | cons n name ih =>
    obtain ⟨ha, hn⟩ := hname n List.mem_cons_self
    cases letters with
    | nil => rw [List.nil_append, afterName?_cons_of_ne (toLower_ne ha hc)]; rfl
    | cons d letters =>
      by_cases hnd : n.toLower = d.toLower
      · rw [List.cons_append, afterName?, if_pos hnd]
        refine ih (fun e he => hname e (List.mem_cons_of_mem _ he))
          (fun e he => hletters e (List.mem_cons_of_mem _ he)) ?_
        rintro ⟨rfl, hends⟩
        exact h ⟨by rw [List.map_cons, ← hnd, hn], hends⟩
      · rw [List.cons_append, afterName?_cons_of_ne hnd]; rfl

/-- Outside of markup, a `</` and letters that are not the whole name of the element. -/
theorem Content.alike_endName (hstage : content.IsStage) (hne : content ≠ .markup) {letters : List Char}
    (hletters : ∀ d ∈ letters, d.isAlpha) (hc : c.isAlpha = false)
    (h : ¬ (letters.map Char.toLower = content.name ∧ endsTagName [c])) (s : List Char) :
    content.Alike ('<' :: '/' :: letters ++ c :: s) (c :: s) := by
  have raw := hstage.isRawName hne
  have notLess : '<' ∉ '/' :: letters := by
    rw [List.mem_cons, not_or]
    exact ⟨by decide, fun hm => absurd (hletters _ hm) (by decide)⟩
  refine .trans (alike_less (fun isEnd name hseeks => ?_) fun hm => absurd hm hne) (content.alike_append notLess _)
  obtain ⟨rfl, rfl⟩ := hseeks.isEnd hne
  change (afterName? content.name (letters ++ c :: s)).filter _ = _
  exact afterName?_letters (fun d hd => ⟨raw.letters d hd, raw.small d hd⟩) hletters hc h

end Passing

/-! ### Declarations -/

namespace DeclarationPart

/-- What the search for the end of a declaration finds in the text that follows a part of it. -/
def search : DeclarationPart → List Char → Option (List Char)
  | opened, s => pastDeclaration? ('<' :: '!' :: s)
  | openedDash, s => pastDeclaration? ('<' :: '!' :: '-' :: s)
  | simple, s => some (pastClose s)
  | start, s | body, s | bang, s => some (pastCommentEnd s)
  | startDash, s | dash, s => some (pastCommentEnd ('-' :: s))
  | dashes, s => some (pastCommentEnd ('-' :: '-' :: s))

/-- The parts of a comment where a `>` ends it for the reader alone. -/
def closesEarly : DeclarationPart → Bool
  | start | startDash | bang => true
  | _ => false

theorem pastCommentEnd_cons {c : Char} (h : c ≠ '-') (s : List Char) : pastCommentEnd (c :: s) = pastCommentEnd s := by
  rw [pastCommentEnd]
  rintro _ rfl
  exact absurd rfl h

theorem pastCommentEnd_dash {c : Char} (h : c ≠ '-') (s : List Char) :
    pastCommentEnd ('-' :: c :: s) = pastCommentEnd s := by
  rw [pastCommentEnd, pastCommentEnd_cons h]
  rintro _ - heq
  exact h (List.cons.inj heq).1

theorem pastCommentEnd_dashes {c : Char} (h : c ≠ '>') (s : List Char) :
    pastCommentEnd ('-' :: '-' :: c :: s) = pastCommentEnd ('-' :: c :: s) := by
  rw [pastCommentEnd]
  rintro _ - heq
  exact h (List.cons.inj (List.cons.inj heq).2).1

theorem pastClose_cons {c : Char} (h : c ≠ '>') (s : List Char) : pastClose (c :: s) = pastClose s := by
  rw [pastClose, List.dropWhile_cons_of_pos (by simpa using h)]
  rfl

theorem pastDeclaration?_bang {c : Char} (h : c ≠ '-') (s : List Char) :
    pastDeclaration? ('<' :: '!' :: c :: s) = some (pastClose (c :: s)) := by
  rw [pastDeclaration?]
  rintro _ heq
  exact h (List.cons.inj heq).1

theorem pastDeclaration?_bangDash {c : Char} (h : c ≠ '-') (s : List Char) :
    pastDeclaration? ('<' :: '!' :: '-' :: c :: s) = some (pastClose (c :: s)) := by
  rw [pastDeclaration?, pastClose_cons (by decide)]
  rintro _ heq
  exact h (List.cons.inj (List.cons.inj heq).2).1

theorem ite_eq_some {p : Prop} [Decidable p] {part part' : DeclarationPart} {other : Option DeclarationPart}
    (h : (if p then some part else other) = some part') : (p ∧ part = part') ∨ (¬ p ∧ other = some part') := by
  split at h
  · next hp => exact .inl ⟨hp, Option.some.inj h⟩
  · next hp => exact .inr ⟨hp, h⟩

theorem search_step {part part' : DeclarationPart} {c : Char} (h : part.step c = some part') (s : List Char) :
    part.search (c :: s) = part'.search s := by
  have notClose : ∀ {other : Option DeclarationPart}, (if c = '>' then none else other) = some part' →
      c ≠ '>' ∧ other = some part' := Option.ite_none_left_eq_some.1
  cases part with
  | opened =>
    obtain ⟨rfl, rfl⟩ | ⟨hdash, h⟩ := ite_eq_some h
    · rfl
    · obtain ⟨hclose, ⟨⟩⟩ := notClose h
      rw [search, pastDeclaration?_bang hdash, pastClose_cons hclose, search]
  | openedDash =>
    obtain ⟨rfl, rfl⟩ | ⟨hdash, h⟩ := ite_eq_some h
    · rfl
    · obtain ⟨hclose, ⟨⟩⟩ := notClose h
      rw [search, pastDeclaration?_bangDash hdash, pastClose_cons hclose, search]
  | simple =>
    obtain ⟨hclose, ⟨⟩⟩ := notClose h
    exact congrArg some (pastClose_cons hclose s)
  | start | bang =>
    obtain ⟨rfl, rfl⟩ | ⟨hdash, h⟩ := ite_eq_some h
    · rfl
    · obtain ⟨-, ⟨⟩⟩ := notClose h
      exact congrArg some (pastCommentEnd_cons hdash s)
  | startDash =>
    obtain ⟨rfl, rfl⟩ | ⟨hdash, h⟩ := ite_eq_some h
    · rfl
    · obtain ⟨-, ⟨⟩⟩ := notClose h
      exact congrArg some (pastCommentEnd_dash hdash s)
  | body =>
    obtain ⟨rfl, rfl⟩ | ⟨hdash, ⟨⟩⟩ := ite_eq_some h
    · rfl
    · exact congrArg some (pastCommentEnd_cons hdash s)
  | dash =>
    obtain ⟨rfl, rfl⟩ | ⟨hdash, ⟨⟩⟩ := ite_eq_some h
    · rfl
    · exact congrArg some (pastCommentEnd_dash hdash s)
  | dashes =>
    obtain ⟨hclose, h⟩ := notClose h
    refine (congrArg some (pastCommentEnd_dashes hclose s)).trans ?_
    obtain ⟨rfl, rfl⟩ | ⟨hbang, h⟩ := ite_eq_some h
    · exact congrArg some (pastCommentEnd_dash (by decide) s)
    · obtain ⟨rfl, rfl⟩ | ⟨hdash, ⟨⟩⟩ := ite_eq_some h
      · rfl
      · exact congrArg some (pastCommentEnd_dash hdash s)

/-- The search ends with the reader, unless the reader knows a shorter end. -/
theorem search_end {part : DeclarationPart} {c : Char} (h : part.step c = none) (early : part.closesEarly = false)
    (s : List Char) : part.search (c :: s) = some s := by
  have closing : c = '>' := by
    cases part with
    | start | startDash | bang => cases early
    | _ => grind [step]
  subst closing
  cases part with
  | start | startDash | bang => cases early
  | body | dash => cases h
  | opened => exact pastDeclaration?_bang (by decide) s
  | openedDash => exact pastDeclaration?_bangDash (by decide) s
  | simple | dashes => rfl

end DeclarationPart

end Stencil.Markup
