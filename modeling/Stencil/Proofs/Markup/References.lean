import Mathlib.Data.List.Basic
import Mathlib.Tactic.SplitIfs
import Stencil.Markup.Event.Step
import Stencil.Text.Blank
import Stencil.Text.Utf8

/-! Where character references end. No name of a reference holds a delimiter of markup, so a reference that is being read
ends before one and leaves it to the text or value around it. -/

namespace Stencil.Markup

namespace CharRef

/-- Codes of letters, digits, the colon and the semicolon. -/
def isNameCode (n : Nat) : Bool :=
  (Nat.ble 48 n && Nat.ble n 59) || (Nat.ble 65 n && Nat.ble n 90) || (Nat.ble 97 n && Nat.ble n 122)

theorem isNameCode_iff {n : Nat} :
    isNameCode n = true ↔ (48 ≤ n ∧ n ≤ 59) ∨ (65 ≤ n ∧ n ≤ 90) ∨ (97 ≤ n ∧ n ≤ 122) := by
  simp only [isNameCode, Bool.or_eq_true, Bool.and_eq_true, Nat.ble_eq, or_assoc]

/-- Every octet of the name is the code of such a character. -/
def isPlainName (s : String) : Bool := (Text.Utf8.encode s).all fun b => isNameCode b.toNat

theorem isPlainName_table (c : Char) : (table c).all (fun row => isPlainName row.1) = true := by
  unfold table
  split <;> decide +kernel

theorem isNameCode_of_mem {s : String} (h : isPlainName s) {c : Char} (hc : c ∈ s.toList) (small : c.toNat ≤ 127) :
    isNameCode c.toNat := by
  have octet : UInt8.ofNat c.toNat ∈ Text.Utf8.encode s := by
    rw [Text.Utf8.encode_eq]
    refine List.mem_flatMap.2 ⟨c, hc, ?_⟩
    rw [show String.utf8EncodeChar c = [UInt8.ofNat c.toNat] from if_pos small]
    exact List.mem_singleton_self _
  have value : (UInt8.ofNat c.toNat).toNat = c.toNat := by
    rw [UInt8.toNat_ofNat']
    exact Nat.mod_eq_of_lt (by omega)
  have code := List.all_eq_true.1 h _ octet
  rwa [value] at code

end CharRef

/-- A character of ASCII that neither names of references nor their numbers hold. -/
def IsDelimiter (c : Char) : Prop := c.toNat ≤ 127 ∧ CharRef.isNameCode c.toNat = false ∧ c ≠ '#'

instance (c : Char) : Decidable (IsDelimiter c) := inferInstanceAs (Decidable (_ ∧ _))

theorem IsDelimiter.not_isDigit {c : Char} (h : IsDelimiter c) : c.isDigit = false := by
  by_contra hd
  have bounds : 48 ≤ c.toNat ∧ c.toNat ≤ 57 := by
    simp only [Char.isDigit, Bool.not_eq_false, Bool.and_eq_true, decide_eq_true_eq, ge_iff_le,
      UInt32.le_iff_toNat_le] at hd
    exact hd
  have code := h.2.1
  rw [← Bool.not_eq_true, CharRef.isNameCode_iff] at code
  omega

theorem IsDelimiter.hexDigit? {c : Char} (h : IsDelimiter c) : Text.hexDigit? c = none := by
  have code := h.2.1
  rw [← Bool.not_eq_true, CharRef.isNameCode_iff] at code
  have small : ¬ ('a' ≤ c ∧ c ≤ 'f') := fun hc => by
    have bounds : 97 ≤ c.toNat ∧ c.toNat ≤ 102 := Text.toNat_bounds hc
    omega
  have capital : ¬ ('A' ≤ c ∧ c ≤ 'F') := fun hc => by
    have bounds : 65 ≤ c.toNat ∧ c.toNat ≤ 70 := Text.toNat_bounds hc
    omega
  simp [Text.hexDigit?, h.not_isDigit, small, capital]

namespace Reference

/-- The rows that still fit hold no delimiter. -/
def IsPlain : Reference → Prop
  | named _ rows _ => ∀ row ∈ rows, ∀ c ∈ row.name, ¬ IsDelimiter c
  | _ => True

theorem notDelimiter_startingWith {c : Char} : ∀ row ∈ CharRef.startingWith c, ∀ d ∈ row.name, ¬ IsDelimiter d := by
  intro row hrow d hd hdelim
  obtain ⟨⟨name, text⟩, hmem, rfl⟩ := List.mem_map.1 hrow
  have plain := List.all_eq_true.1 (CharRef.isPlainName_table c) _ hmem
  have code := CharRef.isNameCode_of_mem plain (List.drop_subset 1 _ hd) hdelim.1
  rw [hdelim.2.1] at code
  cases code

theorem notDelimiter_advance {c : Char} {rows : List CharRef.Row}
    (h : ∀ row ∈ rows, ∀ d ∈ row.name, ¬ IsDelimiter d) :
    (∀ row ∈ CharRef.advance c rows, ∀ d ∈ row.name, ¬ IsDelimiter d) ∧
      (IsDelimiter c → CharRef.advance c rows = []) := by
  have taken : ∀ row ∈ CharRef.advance c rows, ∃ rest, ⟨c :: row.name, rest⟩ ∈ rows := by
    intro row hrow
    obtain ⟨⟨name, text⟩, hmem, hrest⟩ := List.mem_filterMap.1 hrow
    cases name with
    | nil => cases hrest
    | cons d name =>
      simp only [Option.ite_none_right_eq_some, Option.some.injEq] at hrest
      obtain ⟨rfl, rfl⟩ := hrest
      exact ⟨text, hmem⟩
  refine ⟨fun row hrow d hd => ?_, fun hc => List.eq_nil_iff_forall_not_mem.2 fun row hrow => ?_⟩
  · obtain ⟨rest, hmem⟩ := taken row hrow
    exact h _ hmem d (List.mem_cons_of_mem _ hd)
  · obtain ⟨rest, hmem⟩ := taken row hrow
    exact h _ hmem c List.mem_cons_self hc

theorem isPlain_goOn {inAttr : Bool} {seen : List Char} {rows : List CharRef.Row}
    {best : Option (List Char × List Char)} {c : Char} {r : Reference}
    (h : ∀ row ∈ rows, ∀ d ∈ row.name, ¬ IsDelimiter d) (hr : goOn inAttr seen rows best c = .more r) : r.IsPlain := by
  unfold goOn at hr
  split at hr
  · cases hr
  · split at hr
    · cases hr
    · obtain rfl := Outcome.more.inj hr
      exact h
    · obtain rfl := Outcome.more.inj hr
      exact h

theorem isPlain_step {inAttr : Bool} {r r' : Reference} {c : Char} (h : r.IsPlain) (hstep : r.step inAttr c = .more r') :
    r'.IsPlain := by
  cases r with
  | start =>
    simp only [step] at hstep
    split at hstep
    · obtain rfl := Outcome.more.inj hstep
      trivial
    · exact isPlain_goOn notDelimiter_startingWith hstep
  | named seen rows best => exact isPlain_goOn (notDelimiter_advance h).1 hstep
  | number =>
    simp only [step] at hstep
    split at hstep
    · obtain rfl := Outcome.more.inj hstep
      trivial
    · split at hstep
      · obtain rfl := Outcome.more.inj hstep
        trivial
      · cases hstep
  | hexStart | decimal | hexadecimal =>
    simp only [step] at hstep
    split at hstep
    · obtain rfl := Outcome.more.inj hstep
      trivial
    · cases hstep

/-- A delimiter ends a reference and is left to what follows. -/
theorem step_delimiter (inAttr : Bool) {r : Reference} {c : Char} (h : r.IsPlain) (hc : IsDelimiter c) :
    ∃ cs, r.step inAttr c = .done cs false := by
  have notSemicolon : c ≠ ';' := by
    rintro rfl
    exact absurd hc (by decide)
  cases r with
  | start =>
    have none : CharRef.startingWith c = [] := by
      unfold CharRef.startingWith CharRef.table
      split
      all_goals first | rfl | exact absurd hc (by decide)
    exact ⟨_, by rw [step, if_neg hc.2.2, none]; rfl⟩
  | named seen rows best => exact ⟨_, by rw [step, (notDelimiter_advance h).2 hc]; rfl⟩
  | number =>
    have letter : ¬ (c = 'x' ∨ c = 'X') := by
      rintro (rfl | rfl)
      · exact absurd hc (by decide)
      · exact absurd hc (by decide)
    exact ⟨_, by rw [step, if_neg letter, if_neg (by simp [hc.not_isDigit])]⟩
  | hexStart x => exact ⟨_, by rw [step, hc.hexDigit?]⟩
  | decimal n => exact ⟨_, by rw [step, if_neg (by simp [hc.not_isDigit]), decide_eq_false notSemicolon]⟩
  | hexadecimal n => exact ⟨[ofNumber n], by simp [step, hc.hexDigit?, notSemicolon]⟩

/-- What does not end a reference before it is no delimiter. -/
theorem notDelimiter_of_step {inAttr : Bool} {r : Reference} {c : Char} (h : r.IsPlain)
    (hr : ∀ cs, r.step inAttr c ≠ .done cs false) : ¬ IsDelimiter c := fun hc =>
  let ⟨cs, hdone⟩ := step_delimiter inAttr h hc
  hr cs hdone

end Reference

/-! ### References in states -/

/-- The reference that is being read. -/
def State.reference? : State → Option Reference
  | text _ r | value _ _ _ _ r => r
  | _ => none

/-- A step leaves a state whose reference holds no delimiter. -/
def Step.IsPlain (r : Step) : Prop := ∀ reference ∈ r.1.reference?, reference.IsPlain

theorem isPlain_of_none {r : Step} (h : r.1.reference? = none) : Step.IsPlain r := by
  rw [Step.IsPlain, h]
  nofun

theorem isPlain_start {r : Step} (h : r.1.reference? = some .start) : Step.IsPlain r := by
  rw [Step.IsPlain, h]
  rintro _ ⟨⟩
  trivial

theorem isPlain_close (tag : OpenTag) (selfClosing : Bool) : Step.IsPlain (tag.close selfClosing) := by
  apply isPlain_of_none
  unfold OpenTag.close
  split <;> rfl

theorem isPlain_textStep (p : Nat) (content : Content) (c : Char) : Step.IsPlain (textStep p content c) := by
  cases content with
  | markup | plain =>
    simp only [textStep]
    split
    · exact isPlain_of_none rfl
    · split
      · exact isPlain_start rfl
      · exact isPlain_of_none rfl
  | script =>
    simp only [textStep]
    split <;> exact isPlain_of_none rfl

theorem isPlain_slashStep {tag : OpenTag} {c : Char} {other : Step} (h : Step.IsPlain other) :
    Step.IsPlain ((slashStep tag c).getD other) := by
  unfold slashStep
  split
  · exact isPlain_of_none rfl
  · split
    · exact isPlain_close tag false
    · exact h

theorem isPlain_attrStep (tag : OpenTag) (c : Char) : Step.IsPlain (attrStep tag c) := by
  unfold attrStep
  split
  · exact isPlain_of_none rfl
  · exact isPlain_slashStep (isPlain_of_none rfl)

theorem isPlain_valueStep (tag : OpenTag) (n : List Char) (quoting : Quoting) (w : List Char) (c : Char) :
    Step.IsPlain (valueStep tag n quoting w c) := by
  unfold valueStep
  split
  · exact isPlain_start rfl
  · cases quoting with
    | double | single => simp only []; split <;> exact isPlain_of_none rfl
    | unquoted =>
      simp only []
      split
      · exact isPlain_of_none rfl
      · split
        · exact isPlain_close _ false
        · exact isPlain_of_none rfl

theorem isPlain_endLessStep (p : Nat) (content : Content) (start : Nat) (c : Char) :
    Step.IsPlain (endLessStep p content start c) := by
  unfold endLessStep
  split
  · exact isPlain_of_none rfl
  · cases content with
    | markup | plain => exact isPlain_textStep p _ c
    | script name part =>
      simp only [scriptLess]
      split
      · split
        · exact isPlain_of_none rfl
        · exact isPlain_textStep p (.script name .code) c
      · exact isPlain_textStep p (.script name _) c

theorem isPlain_endNameStep (p : Nat) (content : Content) (start : Nat) (letters : List Char) (c : Char) :
    Step.IsPlain (endNameStep p content start letters c) := by
  unfold endNameStep
  split
  · exact isPlain_of_none rfl
  · simp only []
    split
    · exact isPlain_of_none rfl
    · split
      · exact isPlain_of_none rfl
      · split
        · exact isPlain_close _ false
        · exact isPlain_textStep p content c

/-- The references that are read hold no delimiter. -/
theorem isPlain_step {s : State} (h : ∀ r ∈ s.reference?, r.IsPlain) (p : Nat) (c : Char) :
    Step.IsPlain (s.step p c) := by
  cases s with
  | text content r =>
    cases r with
    | none => exact isPlain_textStep p content c
    | some r =>
      rw [State.step]
      split
      · next r' hr =>
        rintro _ ⟨⟩
        exact r.isPlain_step (h r rfl) hr
      · exact isPlain_of_none rfl
      · exact isPlain_textStep p content c
  | less start =>
    simp only [State.step, lessStep]
    split_ifs
    · exact isPlain_of_none rfl
    · exact isPlain_of_none rfl
    · exact isPlain_of_none rfl
    · exact isPlain_of_none rfl
    · exact isPlain_textStep p .markup c
  | lessSlash start =>
    rw [State.step]
    split_ifs <;> exact isPlain_of_none rfl
  | tagName tag =>
    rw [State.step]
    split
    · exact isPlain_of_none rfl
    · exact isPlain_slashStep (isPlain_of_none rfl)
  | beforeAttr tag | afterValue tag => exact isPlain_attrStep tag c
  | attrName tag n =>
    simp only [State.step, attrNameStep]
    split_ifs
    · exact isPlain_of_none rfl
    · exact isPlain_of_none rfl
    · exact isPlain_slashStep (isPlain_of_none rfl)
  | afterAttrName tag n =>
    simp only [State.step, afterAttrNameStep]
    split_ifs
    · exact isPlain_of_none rfl
    · exact isPlain_of_none rfl
    · exact isPlain_slashStep (isPlain_of_none rfl)
  | beforeValue tag n =>
    simp only [State.step, beforeValueStep]
    split_ifs
    · exact isPlain_of_none rfl
    · exact isPlain_of_none rfl
    · exact isPlain_of_none rfl
    · exact isPlain_valueStep tag n .unquoted [] c
  | value tag n quoting w r =>
    cases r with
    | none => exact isPlain_valueStep tag n quoting w c
    | some r =>
      rw [State.step]
      split
      · next r' hr =>
        rintro _ ⟨⟩
        exact r.isPlain_step (h r rfl) hr
      · exact isPlain_of_none rfl
      · exact isPlain_valueStep tag n quoting _ c
  | slash tag =>
    rw [State.step]
    split
    · exact isPlain_close tag true
    · exact isPlain_attrStep tag c
  | declaration part =>
    rw [State.step]
    split <;> exact isPlain_of_none rfl
  | endLess content start => exact isPlain_endLessStep p content start c
  | endName content start letters => exact isPlain_endNameStep p content start letters c

end Stencil.Markup
