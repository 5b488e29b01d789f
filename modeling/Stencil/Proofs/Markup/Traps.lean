import Stencil.Proofs.Markup.Concrete.Placing
import Stencil.Proofs.Markup.References

/-! Where the reader, the cursor and the scan of attributes part. A trap is a character that ends or begins something for
one of them and not for the others. Without traps the scan of attributes goes with the reader through a start tag, and
each `>` outside of quotes ends a tag. -/

namespace Stencil.Markup

/-- Blanks that are none in HTML. -/
def isOddBlank (c : Char) : Bool := Text.isBlank c && !isSpace c

/-- Where a start tag is read, the characters that the reader and the scan of attributes take differently. -/
def OpenTag.isTrap (tag : OpenTag) (c : Char) : Bool := !tag.isEnd && (isOddBlank c || c = '\x00')

def State.isTrap (s : State) (c : Char) : Bool :=
  match s with
  | text (.script name (.nestedClosing letters)) _ => letters.map Char.toLower = name && endsTagName [c]
  | text .. | less _ | endLess .. => false
  | lessSlash _ => !c.isAlpha && c ≠ '>'
  | tagName _ => c = '\x00'
  | beforeAttr tag | afterValue tag | slash tag => tag.isTrap c || (!tag.isEnd && c = '=')
  | attrName tag _ | afterAttrName tag _ => tag.isTrap c
  | beforeValue tag _ => !tag.isEnd && isOddBlank c
  | value tag _ .unquoted _ _ => !tag.isEnd && isOddBlank c
  | value tag .. => tag.isEnd && c = '>'
  | declaration .start | declaration .startDash | declaration .bang => c = '>'
  | declaration _ => false
  | endName content _ letters => letters.map Char.toLower = content.name && isOddBlank c

namespace Reader

def isTrap (r : Reader) (c : Char) : Bool :=
  !(c = '\n' && r.afterReturn) && r.state.isTrap (if c = '\r' then '\n' else c)

def isSmooth (r : Reader) : List Char → Bool
  | [] => true
  | c :: cs => !r.isTrap c && (r.step c).1.isSmooth cs

end Reader

/-! ### Delimiters -/

theorem isDelimiter_of_isSpace {c : Char} (h : isSpace c) : IsDelimiter c := by
  simp only [isSpace, Bool.or_eq_true, decide_eq_true_eq] at h
  rcases h with ((rfl | rfl) | rfl) | rfl <;> decide

theorem isBlank_eq_isSpace {c : Char} (hodd : isOddBlank c = false) : Text.isBlank c = isSpace c := by
  cases h : isSpace c with
  | true => exact Concrete.isBlank_of_isSpace h
  | false => simpa [isOddBlank, h] using hodd

/-! ### Attributes -/

/-- Where the scan of attributes stands in a value. -/
def Quoting.scan (quoting : Quoting) (name : List Char) : AttrScan :=
  match quoting with
  | double => .quoted name '"'
  | single => .quoted name '\''
  | unquoted => .unquoted name

/-- Where the scan of attributes stands in a state after the name of a tag. -/
def State.scan? : State → Option (OpenTag × AttrScan)
  | beforeAttr tag | afterValue tag | slash tag => some (tag, .between)
  | attrName tag name => some (tag, .name name)
  | afterAttrName tag name => some (tag, .afterName name)
  | beforeValue tag name => some (tag, .beforeValue name)
  | value tag name quoting _ _ => some (tag, quoting.scan name)
  | _ => none

/-- A tag takes over what is declared. -/
inductive OpenTag.Takes (tag : OpenTag) : List Declared → OpenTag → Prop
  | nothing : tag.Takes [] tag
  | attr (n : List Char) (v : Option (List Char)) : tag.Takes [(n, v.isSome)] (tag.addAttr n (v.getD []))

/-- A step of the reader does what a step of the scan of attributes does. -/
inductive ScanStep (tag : OpenTag) : List Declared × Option AttrScan → Step → Prop
  | goesOn {s : State} {tag' : OpenTag} {scan : AttrScan} {new : List Declared} (hs : s.scan? = some (tag', scan))
    (takes : tag.Takes new tag') : ScanStep tag (new, some scan) (s, [])
  | closes {tag' : OpenTag} {new : List Declared} (takes : tag.Takes new tag') (selfClosing : Bool) :
    ScanStep tag (new, none) (tag'.close selfClosing)

namespace ScanStep

theorem silent {tag : OpenTag} {s : State} {scan : AttrScan} (hs : s.scan? = some (tag, scan)) :
    ScanStep tag ([], some scan) (s, []) := .goesOn hs .nothing

section Steps

variable {tag : OpenTag} {n w : List Char} {c : Char}

theorem nameChar_eq (h : c ≠ '\x00') : nameChar c = c.toLower := by
  unfold nameChar shown
  rw [if_neg]
  exact fun h0 => h (Text.toLower_eq_of_small (by decide) h0)

theorem declare_eq (hn : n ≠ []) (hasValue : Bool) : AttrScan.declare n hasValue = [(n, hasValue)] := by
  simp [AttrScan.declare, hn]

theorem slashOrName {new : List Declared} {tag' : OpenTag} (takes : tag.Takes new tag') (hblank : Text.isBlank c = false)
    (hnull : c ≠ '\x00') (heq : c ≠ '=') :
    ScanStep tag (new, AttrScan.between? c) ((slashStep tag' c).getD (.attrName tag' [nameChar c], [])) := by
  unfold slashStep AttrScan.between?
  by_cases hslash : c = '/'
  · subst hslash
    exact .goesOn rfl takes
  · by_cases hclose : c = '>'
    · subst hclose
      exact .closes takes false
    · simp only [hblank, hslash, hclose, heq, Bool.false_or, decide_false, Bool.false_eq_true, if_false,
        nameChar_eq hnull]
      exact .goesOn rfl takes

theorem attrStep (hodd : isOddBlank c = false) (hnull : c ≠ '\x00') (heq : c ≠ '=') :
    ScanStep tag (AttrScan.between.step c) (attrStep tag c) := by
  unfold Markup.attrStep
  split
  · next hspace =>
    rw [AttrScan.step, AttrScan.between?, Concrete.isBlank_of_isSpace hspace]
    exact silent rfl
  · next hspace =>
    have hblank : Text.isBlank c = false := by simpa [isBlank_eq_isSpace hodd] using hspace
    exact slashOrName .nothing hblank hnull heq

theorem attrNameStep (hn : n ≠ []) (hodd : isOddBlank c = false) (hnull : c ≠ '\x00') :
    ScanStep tag ((AttrScan.name n).step c) (attrNameStep tag n c) := by
  unfold Markup.attrNameStep
  rw [AttrScan.step, isBlank_eq_isSpace hodd]
  split
  · exact silent rfl
  · next hspace =>
    split
    · exact silent rfl
    · next heq =>
      have bare : tag.Takes (AttrScan.declare n false) (tag.addAttr n []) := declare_eq hn false ▸ .attr n none
      by_cases hslash : c = '/'
      · subst hslash
        exact .goesOn rfl bare
      · by_cases hclose : c = '>'
        · subst hclose
          exact .closes bare false
        · simp only [slashStep, hslash, hclose, Bool.or_self, decide_false, Bool.false_eq_true, if_false,
            nameChar_eq hnull]
          exact silent rfl

theorem afterAttrNameStep (hn : n ≠ []) (hodd : isOddBlank c = false) (hnull : c ≠ '\x00') :
    ScanStep tag ((AttrScan.afterName n).step c) (afterAttrNameStep tag n c) := by
  unfold Markup.afterAttrNameStep
  rw [AttrScan.step, isBlank_eq_isSpace hodd]
  split
  · exact silent rfl
  · next hspace =>
    split
    · exact silent rfl
    · next heq =>
      have bare : tag.Takes (AttrScan.declare n false) (tag.addAttr n []) := declare_eq hn false ▸ .attr n none
      have hblank : Text.isBlank c = false := by simpa [isBlank_eq_isSpace hodd] using hspace
      exact slashOrName bare hblank hnull heq

theorem valueStep (hn : n ≠ []) (quoting : Quoting) (hodd : quoting = .unquoted → isOddBlank c = false) :
    ScanStep tag ((quoting.scan n).step c) (valueStep tag n quoting w c) := by
  have valued : tag.Takes (AttrScan.declare n true) (tag.addAttr n w) := declare_eq hn true ▸ .attr n (some w)
  unfold Markup.valueStep
  by_cases hamp : c = '&'
  · subst hamp
    cases quoting <;> exact silent rfl
  · rw [if_neg hamp]
    cases quoting with
    | double =>
      simp only [Quoting.scan, AttrScan.step]
      split
      · exact .goesOn rfl valued
      · exact silent rfl
    | single =>
      simp only [Quoting.scan, AttrScan.step]
      split
      · exact .goesOn rfl valued
      · exact silent rfl
    | unquoted =>
      simp only [Quoting.scan, AttrScan.step, isBlank_eq_isSpace (hodd rfl)]
      split
      · exact .goesOn rfl valued
      · split
        · exact .closes valued false
        · exact silent rfl

theorem beforeValueStep (hn : n ≠ []) (hodd : isOddBlank c = false) :
    ScanStep tag ((AttrScan.beforeValue n).step c) (beforeValueStep tag n c) := by
  unfold Markup.beforeValueStep
  by_cases hspace : isSpace c
  · rw [if_pos hspace, AttrScan.step, Concrete.isBlank_of_isSpace hspace]
    exact silent rfl
  · rw [if_neg hspace]
    by_cases hdouble : c = '"'
    · subst hdouble
      exact silent rfl
    · by_cases hsingle : c = '\''
      · subst hsingle
        exact silent rfl
      · rw [if_neg hdouble, if_neg hsingle]
        -- the value begins with this character, for which the scan does what it does within the value
        have begun : (AttrScan.beforeValue n).step c = (Quoting.unquoted.scan n).step c := by
          have hblank : Text.isBlank c = false := by simpa [isBlank_eq_isSpace hodd] using hspace
          simp only [Quoting.scan, AttrScan.step, hblank, hdouble, hsingle, Bool.or_self, decide_false,
            Bool.false_eq_true, if_false]
        rw [begun]
        exact valueStep hn .unquoted fun _ => hodd

theorem scan_step_inReference (quoting : Quoting) (hc : ¬ IsDelimiter c)
    (hodd : quoting = .unquoted → isOddBlank c = false) : (quoting.scan n).step c = ([], some (quoting.scan n)) := by
  have other : ∀ d, IsDelimiter d → c ≠ d := by
    rintro d hd rfl
    exact hc hd
  cases quoting with
  | double => simp [Quoting.scan, AttrScan.step, other '"' (by decide)]
  | single => simp [Quoting.scan, AttrScan.step, other '\'' (by decide)]
  | unquoted =>
    have hblank : Text.isBlank c = false := by
      rw [isBlank_eq_isSpace (hodd rfl), ← Bool.not_eq_true]
      exact fun hspace => hc (isDelimiter_of_isSpace hspace)
    simp [Quoting.scan, AttrScan.step, hblank, other '>' (by decide)]

end Steps

end ScanStep

theorem OpenTag.noTrap {tag : OpenTag} (hstart : tag.isEnd = false) {c : Char} (h : tag.isTrap c = false) :
    isOddBlank c = false ∧ c ≠ '\x00' := by simpa [isTrap, hstart] using h

/-- Without traps the scan of attributes goes with the reader. -/
theorem scanStep {s : State} {tag : OpenTag} {part : TagPart} {scan : AttrScan} {content : Content}
    (hs : s.scan? = some (tag, scan)) (hu : s.inTag? = some (tag, part)) (good : GoodTag content (tag, part))
    (plain : ∀ r ∈ s.reference?, r.IsPlain) (hstart : tag.isEnd = false) {c : Char} (smooth : s.isTrap c = false)
    (p : Nat) : ScanStep tag (scan.step c) (s.step p c) := by
  have between : (tag.isTrap c || (!tag.isEnd && c = '=')) = false →
      ScanStep tag (AttrScan.between.step c) (attrStep tag c) := by
    intro h
    rw [Bool.or_eq_false_iff, hstart] at h
    obtain ⟨hodd, hnull⟩ := OpenTag.noTrap hstart h.1
    exact .attrStep hodd hnull (by simpa using h.2)
  cases s with
  | beforeAttr _ | afterValue _ =>
    cases hs
    exact between smooth
  | slash _ =>
    cases hs
    rw [State.step]
    split
    · next hclose =>
      obtain rfl := hclose
      exact .closes .nothing true
    · exact between smooth
  | attrName _ n =>
    cases hs
    cases hu
    obtain ⟨hodd, hnull⟩ := OpenTag.noTrap hstart smooth
    exact .attrNameStep (good.current n (.inl rfl)).notEmpty hodd hnull
  | afterAttrName _ n =>
    cases hs
    cases hu
    obtain ⟨hodd, hnull⟩ := OpenTag.noTrap hstart smooth
    exact .afterAttrNameStep (good.current n (.inl rfl)).notEmpty hodd hnull
  | beforeValue _ n =>
    cases hs
    cases hu
    have hodd : isOddBlank c = false := by simpa [State.isTrap, hstart] using smooth
    exact .beforeValueStep (good.current n (.inl rfl)).notEmpty hodd
  | value _ n quoting w r =>
    cases hs
    cases hu
    have hodd : quoting = .unquoted → isOddBlank c = false := by
      rintro rfl
      simpa [State.isTrap, hstart] using smooth
    have hn : n ≠ [] := (good.current n (.inr ⟨w, rfl⟩)).notEmpty
    cases r with
    | none => exact .valueStep hn quoting hodd
    | some r =>
      have within : (∀ cs, r.step true c ≠ .done cs false) → (quoting.scan n).step c = ([], some (quoting.scan n)) :=
        fun hr => ScanStep.scan_step_inReference quoting (Reference.notDelimiter_of_step (plain r rfl) hr) hodd
      rw [State.step]
      cases hr : r.step true c with
      | more r' =>
        rw [within (by simp [hr])]
        exact .silent rfl
      | done cs taken =>
        cases taken with
        | true =>
          rw [within (by simp [hr])]
          exact .silent rfl
        | false => exact .valueStep hn quoting hodd
  | _ => cases hs

/-! ### End tags -/

/-- A step ends a tag if its character is a `>`, and stays in the tag otherwise. -/
def EndsAtClose (c : Char) (r : Step) : Prop := (c = '>' → r.1.scan? = none) ∧ (c ≠ '>' → r.1.scan?.isSome)

theorem endsAtClose_of_isSome {c : Char} {r : Step} (hc : c ≠ '>') (h : r.1.scan?.isSome) : EndsAtClose c r :=
  ⟨fun hclose => absurd hclose hc, fun _ => h⟩

theorem scan?_close (tag : OpenTag) (selfClosing : Bool) : (tag.close selfClosing).1.scan? = none := by
  unfold OpenTag.close
  split <;> rfl

theorem endsAtClose_close (tag : OpenTag) (selfClosing : Bool) {c : Char} (hc : c = '>') :
    EndsAtClose c (tag.close selfClosing) := ⟨fun _ => scan?_close tag selfClosing, fun hne => absurd hc hne⟩

section Closing

variable {tag : OpenTag} {n w : List Char} {c : Char}

theorem notClose_of_isSpace (h : isSpace c) : c ≠ '>' := by
  rintro rfl
  cases h

theorem endsAtClose_slashStep {other : Step} (h : c ≠ '>' → other.1.scan?.isSome) :
    EndsAtClose c ((slashStep tag c).getD other) := by
  unfold slashStep
  split
  · next hslash => exact endsAtClose_of_isSome (by rw [hslash]; decide) rfl
  · split
    · next hclose => exact endsAtClose_close tag false hclose
    · next hclose => exact endsAtClose_of_isSome hclose (h hclose)

theorem endsAtClose_attrStep : EndsAtClose c (attrStep tag c) := by
  unfold attrStep
  split
  · next hspace => exact endsAtClose_of_isSome (notClose_of_isSpace hspace) rfl
  · exact endsAtClose_slashStep fun _ => rfl

theorem endsAtClose_valueStep (quoting : Quoting) (hquote : quoting ≠ .unquoted → c ≠ '>') :
    EndsAtClose c (valueStep tag n quoting w c) := by
  unfold valueStep
  split
  · next hamp => exact endsAtClose_of_isSome (by rw [hamp]; decide) rfl
  · cases quoting with
    | double | single =>
      have hclose : c ≠ '>' := hquote nofun
      simp only []
      split <;> exact endsAtClose_of_isSome hclose rfl
    | unquoted =>
      simp only []
      split
      · next hspace => exact endsAtClose_of_isSome (notClose_of_isSpace hspace) rfl
      · split
        · next hclose => exact endsAtClose_close _ false hclose
        · next hclose => exact endsAtClose_of_isSome hclose rfl

end Closing

/-- Without traps each `>` ends an end tag. -/
theorem endsAtClose_step {s : State} {tag : OpenTag} {part : TagPart} (hs : s.scan?.isSome)
    (hu : s.inTag? = some (tag, part)) (plain : ∀ r ∈ s.reference?, r.IsPlain) (hend : tag.isEnd = true) {c : Char}
    (smooth : s.isTrap c = false) (p : Nat) : EndsAtClose c (s.step p c) := by
  cases s with
  | beforeAttr _ | afterValue _ => exact endsAtClose_attrStep
  | slash _ =>
    rw [State.step]
    split
    · next hclose => exact endsAtClose_close _ true hclose
    · exact endsAtClose_attrStep
  | attrName _ n =>
    simp only [State.step, attrNameStep]
    split
    · next hspace => exact endsAtClose_of_isSome (notClose_of_isSpace hspace) rfl
    · split
      · next heq => exact endsAtClose_of_isSome (by rw [heq]; decide) rfl
      · exact endsAtClose_slashStep fun _ => rfl
  | afterAttrName _ n =>
    simp only [State.step, afterAttrNameStep]
    split
    · next hspace => exact endsAtClose_of_isSome (notClose_of_isSpace hspace) rfl
    · split
      · next heq => exact endsAtClose_of_isSome (by rw [heq]; decide) rfl
      · exact endsAtClose_slashStep fun _ => rfl
  | beforeValue _ n =>
    simp only [State.step, beforeValueStep]
    split
    · next hspace => exact endsAtClose_of_isSome (notClose_of_isSpace hspace) rfl
    · split
      · next hquote => exact endsAtClose_of_isSome (by rw [hquote]; decide) rfl
      · split
        · next hquote => exact endsAtClose_of_isSome (by rw [hquote]; decide) rfl
        · exact endsAtClose_valueStep .unquoted fun h => absurd rfl h
  | value _ n quoting w r =>
    cases hu
    have hquote : quoting ≠ .unquoted → c ≠ '>' := by
      intro hq
      cases quoting with
      | unquoted => exact absurd rfl hq
      | double | single => simpa [State.isTrap, hend] using smooth
    cases r with
    | none => exact endsAtClose_valueStep quoting hquote
    | some r =>
      have within : (∀ cs, r.step true c ≠ .done cs false) → c ≠ '>' := fun hr hclose =>
        Reference.notDelimiter_of_step (plain r rfl) hr (hclose ▸ by decide)
      rw [State.step]
      cases hr : r.step true c with
      | more r' => exact endsAtClose_of_isSome (within (by simp [hr])) rfl
      | done cs taken =>
        cases taken with
        | true => exact endsAtClose_of_isSome (within (by simp [hr])) rfl
        | false => exact endsAtClose_valueStep quoting hquote
  | _ => cases hs

end Stencil.Markup
