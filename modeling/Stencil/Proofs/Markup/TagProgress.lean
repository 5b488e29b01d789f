import Stencil.Proofs.Markup.Tags
import Stencil.Text.Case

/-! What one more character can do to a tag that is being read. `TagMove` lists the moves, `step_inTag` says that each
step makes some of them, and what every move keeps a whole tag has. -/

namespace Stencil.Markup

/-! ### Characters of names -/

theorem nameChar_nameChar (c : Char) : nameChar (nameChar c) = nameChar c := by
  unfold nameChar shown
  split
  · decide
  · next h => rw [Text.toLower_toLower, if_neg h]

theorem nameChar_eq_of_small {c d : Char} (hd : d.toNat < 97) (h : nameChar c = d) : c = d := by
  unfold nameChar shown at h
  split at h
  · rw [← h] at hd
    exact absurd hd (by decide)
  · exact Text.toLower_eq_of_small hd h

theorem isNameChar_nameChar {c : Char} (hspace : isSpace c = false) (hslash : c ≠ '/') (hclose : c ≠ '>')
    (hreturn : c ≠ '\r') : IsNameChar (nameChar c) where
  kept := nameChar_nameChar c
  notSpace := by
    simp only [isSpace, Bool.or_eq_false_iff, decide_eq_false_iff_not] at hspace ⊢
    obtain ⟨⟨⟨h1, h2⟩, h3⟩, h4⟩ := hspace
    exact ⟨⟨⟨fun h => h1 (nameChar_eq_of_small (by decide) h), fun h => h2 (nameChar_eq_of_small (by decide) h)⟩,
      fun h => h3 (nameChar_eq_of_small (by decide) h)⟩, fun h => h4 (nameChar_eq_of_small (by decide) h)⟩
  notSlash h := hslash (nameChar_eq_of_small (by decide) h)
  notClose h := hclose (nameChar_eq_of_small (by decide) h)
  notReturn h := hreturn (nameChar_eq_of_small (by decide) h)

/-! ### Moves -/

/-- The part of a tag that is being read. -/
inductive TagPart
  | name
  | between
  | attr (name : List Char)
  | value (name value : List Char)

/-- A tag that is being read, and the part of it that is. -/
def State.inTag? : State → Option (OpenTag × TagPart)
  | tagName tag => some (tag, .name)
  | beforeAttr tag | afterValue tag | slash tag => some (tag, .between)
  | attrName tag n | afterAttrName tag n | beforeValue tag n => some (tag, .attr n)
  | value tag n _ w _ => some (tag, .value n w)
  | _ => none

inductive TagMove : OpenTag × TagPart → OpenTag × TagPart → Prop
  | named (tag : OpenTag) : TagMove (tag, .name) (tag, .between)
  | nameChar (tag : OpenTag) (c : Char) (hc : IsNameChar c) :
    TagMove (tag, .name) ({ tag with name := tag.name ++ [c] }, .name)
  | attr (tag : OpenTag) (c : Char) (hc : IsNameChar c) : TagMove (tag, .between) (tag, .attr [c])
  | attrChar (tag : OpenTag) (n : List Char) (c : Char) (hc : IsNameChar c) (heq : c ≠ '=') :
    TagMove (tag, .attr n) (tag, .attr (n ++ [c]))
  | bare (tag : OpenTag) (n : List Char) : TagMove (tag, .attr n) (tag.addAttr n [], .between)
  | value (tag : OpenTag) (n : List Char) : TagMove (tag, .attr n) (tag, .value n [])
  | valueChars (tag : OpenTag) (n w cs : List Char) : TagMove (tag, .value n w) (tag, .value n (w ++ cs))
  | valued (tag : OpenTag) (n w : List Char) : TagMove (tag, .value n w) (tag.addAttr n w, .between)

/-- Any number of moves. -/
inductive TagMoves : OpenTag × TagPart → OpenTag × TagPart → Prop
  | refl (v : OpenTag × TagPart) : TagMoves v v
  | tail {u v w : OpenTag × TagPart} : TagMoves u v → TagMove v w → TagMoves u w

theorem TagMove.moves {u v : OpenTag × TagPart} (h : TagMove u v) : TagMoves u v := .tail (.refl u) h

theorem TagMoves.trans {u v w : OpenTag × TagPart} (h : TagMoves u v) (h' : TagMoves v w) : TagMoves u w := by
  induction h' with
  | refl => exact h
  | tail _ hm ih => exact .tail ih hm

/-- What every move keeps. -/
theorem TagMoves.keeps {P : OpenTag × TagPart → Prop} (step : ∀ u v, TagMove u v → P u → P v)
    {u v : OpenTag × TagPart} (h : TagMoves u v) (hu : P u) : P v := by
  induction h with
  | refl => exact hu
  | tail _ hm ih => exact step _ _ hm ih

/-- The result of a step: the tag goes on, or it is whole. -/
def TagGoesOn (u : OpenTag × TagPart) (r : Step) : Prop :=
  (∃ v, TagMoves u v ∧ r.1.inTag? = some v ∧ r.2 = []) ∨
    ∃ tag selfClosing, TagMoves u (tag, .between) ∧ r = tag.close selfClosing

theorem TagGoesOn.before {u v : OpenTag × TagPart} {r : Step} (h : TagMoves u v) (hr : TagGoesOn v r) :
    TagGoesOn u r := by
  rcases hr with ⟨w, hw, hr⟩ | ⟨tag, selfClosing, hw, hr⟩
  · exact .inl ⟨w, h.trans hw, hr⟩
  · exact .inr ⟨tag, selfClosing, h.trans hw, hr⟩

theorem goesOn {u : OpenTag × TagPart} {s : State} (h : s.inTag? = some u) : TagGoesOn u (s, []) :=
  .inl ⟨u, .refl u, h, rfl⟩

section Steps

variable {tag : OpenTag} {n w : List Char} {c : Char}

/-- A slash or the end of the tag, or else a character of a name. -/
theorem goesOn_slashStep {u : OpenTag × TagPart} {r : Step} (hu : TagMoves u (tag, .between))
    (hspace : isSpace c = false) (hc : c ≠ '\r') (other : IsNameChar (nameChar c) → TagGoesOn u r) :
    TagGoesOn u ((slashStep tag c).getD r) := by
  unfold slashStep
  split
  · exact .before hu (goesOn rfl)
  · next hslash =>
    split
    · exact .inr ⟨tag, false, hu, rfl⟩
    · next hclose => exact other (isNameChar_nameChar hspace hslash hclose hc)

theorem goesOn_attrStep (hc : c ≠ '\r') : TagGoesOn (tag, .between) (attrStep tag c) := by
  unfold attrStep
  split
  · exact goesOn rfl
  · next hspace =>
    exact goesOn_slashStep (.refl _) (by simpa using hspace) hc fun h => .before (TagMove.attr tag _ h).moves (goesOn rfl)

theorem goesOn_attrNameStep (hc : c ≠ '\r') : TagGoesOn (tag, .attr n) (attrNameStep tag n c) := by
  unfold attrNameStep
  split
  · exact goesOn rfl
  · next hspace =>
    split
    · exact goesOn rfl
    · next heq =>
      refine goesOn_slashStep (TagMove.bare tag n).moves (by simpa using hspace) hc fun h => ?_
      exact .before (TagMove.attrChar tag n _ h fun he => heq (nameChar_eq_of_small (by decide) he)).moves (goesOn rfl)

theorem goesOn_afterAttrNameStep (hc : c ≠ '\r') : TagGoesOn (tag, .attr n) (afterAttrNameStep tag n c) := by
  unfold afterAttrNameStep
  split
  · exact goesOn rfl
  · next hspace =>
    split
    · exact goesOn rfl
    · have bare := (TagMove.bare tag n).moves
      refine goesOn_slashStep bare (by simpa using hspace) hc fun h => ?_
      exact .before (.tail bare (TagMove.attr _ _ h)) (goesOn rfl)

theorem goesOn_valueStep (quoting : Quoting) : TagGoesOn (tag, .value n w) (valueStep tag n quoting w c) := by
  have more : TagGoesOn (tag, .value n w) (.value tag n quoting (w ++ [shown c]) none, []) :=
    .before (TagMove.valueChars tag n w [shown c]).moves (goesOn rfl)
  have valued := (TagMove.valued tag n w).moves
  unfold valueStep
  split
  · exact goesOn rfl
  · cases quoting with
    | double =>
      simp only []
      split
      · exact .before valued (goesOn rfl)
      · exact more
    | single =>
      simp only []
      split
      · exact .before valued (goesOn rfl)
      · exact more
    | unquoted =>
      simp only []
      split
      · exact .before valued (goesOn rfl)
      · split
        · exact .inr ⟨_, false, valued, rfl⟩
        · exact more

theorem goesOn_beforeValueStep : TagGoesOn (tag, .attr n) (beforeValueStep tag n c) := by
  have value := (TagMove.value tag n).moves
  unfold beforeValueStep
  split
  · exact goesOn rfl
  · split
    · exact .before value (goesOn rfl)
    · split
      · exact .before value (goesOn rfl)
      · exact .before value (goesOn_valueStep .unquoted)

end Steps

/-- A step in a tag makes moves. -/
theorem step_inTag {s : State} {u : OpenTag × TagPart} (h : s.inTag? = some u) {c : Char} (hc : c ≠ '\r') (p : Nat) :
    TagGoesOn u (s.step p c) := by
  cases s with
  | tagName tag =>
    obtain rfl := Option.some.inj h
    rw [State.step]
    split
    · exact .before (TagMove.named tag).moves (goesOn rfl)
    · next hspace =>
      refine goesOn_slashStep (TagMove.named tag).moves (by simpa using hspace) hc fun h => ?_
      exact .before (TagMove.nameChar tag _ h).moves (goesOn rfl)
  | beforeAttr tag => obtain rfl := Option.some.inj h; exact goesOn_attrStep hc
  | afterValue tag => obtain rfl := Option.some.inj h; exact goesOn_attrStep hc
  | attrName tag n => obtain rfl := Option.some.inj h; exact goesOn_attrNameStep hc
  | afterAttrName tag n => obtain rfl := Option.some.inj h; exact goesOn_afterAttrNameStep hc
  | beforeValue tag n => obtain rfl := Option.some.inj h; exact goesOn_beforeValueStep
  | slash tag =>
    obtain rfl := Option.some.inj h
    rw [State.step]
    split
    · exact .inr ⟨tag, true, .refl _, rfl⟩
    · exact goesOn_attrStep hc
  | value tag n quoting w r =>
    obtain rfl := Option.some.inj h
    cases r with
    | none => exact goesOn_valueStep quoting
    | some r =>
      rw [State.step]
      split
      · exact goesOn rfl
      · next cs _ => exact .before (TagMove.valueChars tag n w cs).moves (goesOn rfl)
      · next cs _ => exact .before (TagMove.valueChars tag n w cs).moves (goesOn_valueStep quoting)
  | _ => cases h

end Stencil.Markup
