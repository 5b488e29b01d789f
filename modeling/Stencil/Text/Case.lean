/-! Letters of ASCII and their cases. -/

namespace Stencil.Text

/-- A lowered character is the same, or a small letter of ASCII in place of a capital one. -/
theorem toLower_cases (c : Char) :
    (c.toLower = c ∧ ¬ (65 ≤ c.toNat ∧ c.toNat ≤ 90)) ∨
      (65 ≤ c.toNat ∧ c.toNat ≤ 90 ∧ c.toLower.toNat = c.toNat + 32) := by
  have bounds : (c.val ≥ 'A'.val ∧ c.val ≤ 'Z'.val) ↔ (65 ≤ c.toNat ∧ c.toNat ≤ 90) := by
    rw [ge_iff_le, UInt32.le_iff_toNat_le, UInt32.le_iff_toNat_le]
    exact Iff.rfl
  unfold Char.toLower
  split
  · next h =>
    obtain ⟨h1, h2⟩ := bounds.1 h
    refine .inr ⟨h1, h2, ?_⟩
    change (c.val + ('a'.val - 'A'.val)).toNat = c.val.toNat + 32
    rw [UInt32.toNat_add, show ('a'.val - 'A'.val).toNat = 32 from rfl]
    have small : c.val.toNat ≤ 90 := h2
    omega
  · next h => exact .inl ⟨rfl, fun hb => h (bounds.2 hb)⟩

theorem toLower_toLower (c : Char) : c.toLower.toLower = c.toLower := by
  rcases toLower_cases c with ⟨h, -⟩ | ⟨h1, h2, h⟩
  · rw [h, h]
  · rcases toLower_cases c.toLower with ⟨h', -⟩ | ⟨h1', h2', -⟩
    · exact h'
    · omega

theorem toLower_eq_of_small {c d : Char} (hd : d.toNat < 97) (h : c.toLower = d) : c = d := by
  rcases toLower_cases c with ⟨hc, -⟩ | ⟨h1, h2, h3⟩
  · rw [← h, hc]
  · rw [h] at h3
    omega

theorem isAlpha_iff {c : Char} : c.isAlpha ↔ (65 ≤ c.toNat ∧ c.toNat ≤ 90) ∨ (97 ≤ c.toNat ∧ c.toNat ≤ 122) := by
  change (decide (65 ≤ c.val ∧ c.val ≤ 90) || (decide (97 ≤ c.val) && decide (c.val ≤ 122))) = true ↔ _
  simp only [Bool.or_eq_true, Bool.and_eq_true, decide_eq_true_eq, UInt32.le_iff_toNat_le]
  exact Iff.rfl

theorem isUpper_iff {c : Char} : c.isUpper ↔ 65 ≤ c.toNat ∧ c.toNat ≤ 90 := by
  change decide (65 ≤ c.val ∧ c.val ≤ 90) = true ↔ _
  simp only [decide_eq_true_eq, UInt32.le_iff_toNat_le]
  exact Iff.rfl

theorem isLower_iff {c : Char} : c.isLower ↔ 97 ≤ c.toNat ∧ c.toNat ≤ 122 := by
  change (decide (97 ≤ c.val) && decide (c.val ≤ 122)) = true ↔ _
  simp only [Bool.and_eq_true, decide_eq_true_eq, UInt32.le_iff_toNat_le]
  exact Iff.rfl

theorem isAlpha_toLower {c : Char} (h : c.isAlpha) : c.toLower.isAlpha := by
  rw [isAlpha_iff] at h ⊢
  rcases toLower_cases c with ⟨hc, -⟩ | ⟨h1, h2, h3⟩
  · rwa [hc]
  · omega

theorem toUpper_cases (c : Char) :
    (c.toUpper = c ∧ ¬ (97 ≤ c.toNat ∧ c.toNat ≤ 122)) ∨
      (97 ≤ c.toNat ∧ c.toNat ≤ 122 ∧ c.toNat = c.toUpper.toNat + 32) := by
  have bounds : (c.val ≥ 'a'.val ∧ c.val ≤ 'z'.val) ↔ (97 ≤ c.toNat ∧ c.toNat ≤ 122) := by
    rw [ge_iff_le, UInt32.le_iff_toNat_le, UInt32.le_iff_toNat_le]
    exact Iff.rfl
  unfold Char.toUpper
  split
  · next h =>
    obtain ⟨h1, h2⟩ := bounds.1 h
    refine .inr ⟨h1, h2, ?_⟩
    change c.val.toNat = (c.val + ('A'.val - 'a'.val)).toNat + 32
    rw [UInt32.toNat_add, show ('A'.val - 'a'.val).toNat = 2 ^ 32 - 32 from rfl]
    have range : 97 ≤ c.val.toNat ∧ c.val.toNat ≤ 122 := ⟨h1, h2⟩
    omega
  · next h => exact .inl ⟨rfl, fun hb => h (bounds.2 hb)⟩

/-- What is lowered to a small letter of ASCII: the letter itself, and its capital. -/
theorem toLower_eq_iff {letter c : Char} (h : 'a' ≤ letter ∧ letter ≤ 'z') :
    c.toLower = letter ↔ c = letter ∨ c = letter.toUpper := by
  have small : 97 ≤ letter.toNat ∧ letter.toNat ≤ 122 := h
  have inj : ∀ {a b : Char}, a.toNat = b.toNat → a = b := fun hab => Char.ext (UInt32.toNat_inj.1 hab)
  rcases toUpper_cases letter with ⟨-, hu⟩ | ⟨-, -, hu⟩
  · exact absurd small hu
  · rcases toLower_cases c with ⟨hl, hcap⟩ | ⟨h1, h2, hl⟩
    · rw [hl]
      refine ⟨.inl, fun hc => hc.resolve_right ?_⟩
      rintro rfl
      omega
    · constructor
      · intro hc
        rw [hc] at hl
        exact .inr (inj (by omega))
      · rintro (rfl | rfl)
        · omega
        · exact inj (by omega)
end Stencil.Text
