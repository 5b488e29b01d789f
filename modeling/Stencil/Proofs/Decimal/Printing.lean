import Stencil.Decimal.Layout
import Stencil.Proofs.Decimal.Shortest

/-! What is printed for a double where exponents are not wanted: its shortest decimal, written out. -/

namespace Stencil.Decimal

open Float.Model (UnpackedFloat)

/-! ### Digits with and without a point -/

/-- `n · 10 ^ k` as a whole number, or else with as many digits after the point as there are tens to divide by. -/
def positional (n : ℕ) (k : ℤ) : List Char :=
  let power := 10 ^ k.natAbs
  if 0 ≤ k then Nat.toDigits 10 (n * power)
  else Nat.toDigits 10 (n / power) ++ '.' :: (Nat.toDigits 10 (n % power)).leftpad k.natAbs '0'

theorem toDigits_mul_ten {n : ℕ} (hn : 0 < n) (d : ℕ) (hd : d < 10) :
    Nat.toDigits 10 (10 * n + d) = Nat.toDigits 10 n ++ Nat.toDigits 10 d :=
  (Nat.toDigits_append_toDigits (by decide) hn hd).symm

theorem toDigits_mul_pow {n : ℕ} (hn : 0 < n) (places : ℕ) :
    Nat.toDigits 10 (n * 10 ^ places) = Nat.toDigits 10 n ++ zeros places := by
  induction places with
  | zero => simp [zeros]
  | succ places ih =>
    have shift : n * 10 ^ (places + 1) = 10 * (n * 10 ^ places) + 0 := by ring
    rw [shift, toDigits_mul_ten (by positivity) 0 (by decide), ih, List.append_assoc, zeros, zeros,
      List.replicate_succ']
    rfl

/-- A number filled up with zeros in front, and one more digit. -/
theorem leftpad_append {d places : ℕ} (n : ℕ) (hplaces : 0 < places) (hd : d < 10) :
    (Nat.toDigits 10 n).leftpad places '0' ++ Nat.toDigits 10 d =
      (Nat.toDigits 10 (10 * n + d)).leftpad (places + 1) '0' := by
  have one : (Nat.toDigits 10 d).length = 1 := by rw [Nat.toDigits_of_lt_base hd]; rfl
  rcases Nat.eq_zero_or_pos n with rfl | hn
  · obtain ⟨more, rfl⟩ := Nat.exists_eq_add_of_lt hplaces
    have zero : Nat.toDigits 10 0 = ['0'] := by decide
    have nothing : 10 * 0 + d = d := by omega
    rw [nothing, List.leftpad, List.leftpad, one, zero, ← List.replicate_succ']
    rfl
  · rw [toDigits_mul_ten hn d hd, List.leftpad, List.leftpad, List.length_append, one, Nat.add_sub_add_right,
      List.append_assoc]

/-- The digits of a number are those of its quotient by a power of ten, and as many as the power has. -/
theorem toDigits_split {n places : ℕ} (hplaces : 0 < places) (hn : 10 ^ places ≤ n) : Nat.toDigits 10 n =
    Nat.toDigits 10 (n / 10 ^ places) ++ (Nat.toDigits 10 (n % 10 ^ places)).leftpad places '0' := by
  induction places, hplaces using Nat.le_induction generalizing n with
  | base =>
    rw [Nat.succ_eq_add_one, Nat.zero_add, pow_one] at hn ⊢
    have last : Nat.toDigits 10 (n % 10) = [Nat.digitChar (n % 10)] := Nat.toDigits_of_lt_base (Nat.mod_lt n (by decide))
    have digits := toDigits_mul_ten (Nat.div_pos hn (by decide)) (n % 10) (Nat.mod_lt n (by decide))
    rw [Nat.div_add_mod] at digits
    rw [digits, last]
    rfl
  | succ places hplaces ih =>
    have enough : 10 ^ places ≤ n / 10 := by
      rw [Nat.le_div_iff_mul_le (by decide), ← pow_succ]
      exact hn
    have digits := toDigits_mul_ten (lt_of_lt_of_le (by positivity) enough) (n % 10) (Nat.mod_lt n (by decide))
    have rest : 10 * (n / 10 % 10 ^ places) + n % 10 = n % 10 ^ (places + 1) := by
      rw [pow_succ', Nat.mod_mul, add_comm]
    rw [Nat.div_add_mod] at digits
    rw [digits, ih enough, List.append_assoc, leftpad_append _ hplaces (Nat.mod_lt n (by decide)), rest,
      Nat.div_div_eq_div_mul, ← pow_succ']

theorem write_plain {n : ℕ} (hn : 0 < n) (k : ℤ) : Layout.plain.write (Nat.toDigits 10 n) k = positional n k := by
  unfold Layout.write positional
  by_cases hk : 0 ≤ k
  · have whole : k.toNat = k.natAbs := by omega
    rw [if_pos hk, if_pos hk, whole, toDigits_mul_pow hn]
    simp [Layout.plain]
  · have places : (-k).toNat = k.natAbs := by omega
    have some : 0 < k.natAbs := by omega
    rw [if_neg hk, if_neg hk, places]
    generalize k.natAbs = places at some ⊢
    by_cases short : (Nat.toDigits 10 n).length ≤ places
    · have less : n < 10 ^ places := (Nat.length_toDigits_le_iff (by decide) some).1 short
      have zero : Nat.toDigits 10 0 = ['0'] := by decide
      simp only [if_pos short, Nat.div_eq_of_lt less, Nat.mod_eq_of_lt less, zero]
      rfl
    · have more : 10 ^ places ≤ n := not_lt.1 (mt (Nat.length_toDigits_le_iff (by decide) some).2 short)
      have split := toDigits_split some more
      have last : ((Nat.toDigits 10 (n % 10 ^ places)).leftpad places '0').length = places := by
        rw [List.length_leftpad, Nat.max_eq_left]
        exact (Nat.length_toDigits_le_iff (by decide) some).2 (Nat.mod_lt n (by positivity))
      dsimp only
      rw [if_neg short]
      generalize Nat.toDigits 10 (n / 10 ^ places) = before at split ⊢
      generalize (Nat.toDigits 10 (n % 10 ^ places)).leftpad places '0' = after at split last ⊢
      rw [split, List.length_append, last, Nat.add_sub_cancel, List.take_left, List.drop_left]

/-! ### What the bits stand for -/

/-- The double `m · 2 ^ e`. The gap below it is half as wide if it is a power of two, except for the least of them. -/
def Binary.of (m : ℕ) (e : ℤ) : Binary := ⟨m, e, m = 2 ^ 52 ∧ -1074 < e⟩

def isNegative : UnpackedFloat.Sign → Bool
  | .negative => true
  | .positive => false

def Class.ofUnpacked : UnpackedFloat → Class
  | .notANumber => .nan
  | .infinity s => .infinite (isNegative s)
  | .zero s => .zero (isNegative s)
  | .finite s m e _ => .finite (isNegative s) (Binary.of m e)

section Bits

open Float.Model.UnpackedFloat
open Float.Model.Format (binary64)

variable (b : BitVec 64)

theorem toNat_mantissa : (@unpackMantissa binary64 b).toNat = b.toNat % leadingBit := by
  unfold unpackMantissa
  simp [leadingBit]

theorem toNat_exponent : (@unpackExponent binary64 b).toNat = (b.toNat >>> 52) % 2048 := by
  unfold unpackExponent
  simp

theorem isNegative_sign : isNegative (Sign.ofBitVec (@unpackSign binary64 b)) = decide (b.toNat >>> 63 = 1) := by
  have bit : (@unpackSign binary64 b).toNat = b.toNat >>> 63 := by
    have := b.isLt
    unfold unpackSign
    simp
    omega
  rw [← bit]
  generalize @unpackSign binary64 b = s
  revert s
  decide

theorem unpackExponent_eq_allOnes : @unpackExponent binary64 b = -1#_ ↔ (b.toNat >>> 52) % 2048 = 2047 := by
  rw [← toNat_exponent, ← BitVec.toNat_inj]
  rfl

theorem unpackExponent_eq_zero : @unpackExponent binary64 b = 0#_ ↔ (b.toNat >>> 52) % 2048 = 0 := by
  rw [← toNat_exponent, ← BitVec.toNat_inj]
  rfl

theorem unpackMantissa_eq_zero : @unpackMantissa binary64 b = 0#_ ↔ b.toNat % leadingBit = 0 := by
  rw [← toNat_mantissa, ← BitVec.toNat_inj]
  rfl

theorem toNat_significand : (1#1 ++ @unpackMantissa binary64 b).toNat = leadingBit + b.toNat % leadingBit := by
  have below : b.toNat % leadingBit < 2 ^ 52 := Nat.mod_lt _ (by decide)
  rw [BitVec.toNat_append, toNat_mantissa]
  exact (Nat.shiftLeft_add_eq_or_of_lt below 1).symm

theorem ofBits_eq : Class.ofBits b.toNat = Class.ofUnpacked (unpack binary64 b) := by
  unfold Class.ofBits unpack
  dsimp only
  rw [← isNegative_sign]
  by_cases special : (b.toNat >>> 52) % 2048 = 2047
  · rw [if_pos special, if_pos ((unpackExponent_eq_allOnes b).2 special)]
    by_cases empty : b.toNat % leadingBit = 0
    · rw [if_pos empty, if_pos ((unpackMantissa_eq_zero b).2 empty)]
      rfl
    · rw [if_neg empty, if_neg (mt (unpackMantissa_eq_zero b).1 empty)]
      rfl
  rw [if_neg special, if_neg (mt (unpackExponent_eq_allOnes b).1 special)]
  by_cases small : (b.toNat >>> 52) % 2048 = 0
  · rw [if_pos small, if_pos ((unpackExponent_eq_zero b).2 small)]
    by_cases empty : b.toNat % leadingBit = 0
    · rw [if_pos empty, dif_pos ((unpackMantissa_eq_zero b).2 empty)]
      rfl
    · rw [if_neg empty, dif_neg (mt (unpackMantissa_eq_zero b).1 empty)]
      have least : ((@unpackExponent binary64 b).toNat : ℤ) - 1075 + 1 = -1074 := by
        rw [toNat_exponent, small]
        rfl
      change _ = Class.finite _ (Binary.of _ (((@unpackExponent binary64 b).toNat : ℤ) - 1075 + 1))
      rw [least, toNat_mantissa, Binary.of]
      simp
  · rw [if_neg small, if_neg (mt (unpackExponent_eq_zero b).1 small)]
    change _ = Class.finite _ (Binary.of _ (((@unpackExponent binary64 b).toNat : ℤ) - 1075))
    rw [toNat_significand, toNat_exponent, Binary.of]
    have power : ((b.toNat % leadingBit = 0 ∧ (b.toNat >>> 52) % 2048 ≠ 1) ↔
        leadingBit + b.toNat % leadingBit = 2 ^ 52 ∧ -1074 < (((b.toNat >>> 52) % 2048 : ℕ) : ℤ) - 1075) := by
      unfold leadingBit
      omega
    rw [decide_eq_decide.2 power]
    rfl

theorem isDouble_of_ofBits {bits : ℕ} {negative : Bool} {d : Binary} (h : Class.ofBits bits = .finite negative d) :
    d.IsDouble := by
  unfold Class.ofBits at h
  have fraction : bits % leadingBit < leadingBit := Nat.mod_lt _ (by decide)
  have field : (bits >>> 52) % 2048 < 2048 := Nat.mod_lt _ (by decide)
  dsimp only at h
  generalize bits % leadingBit = fraction at *
  generalize (bits >>> 52) % 2048 = field at *
  unfold leadingBit at *
  split at h
  · split at h <;> cases h
  · split at h
    · split at h
      · cases h
      · cases h
        constructor <;> dsimp only <;> omega
    · rw [Int.ofNat_eq_natCast] at h
      cases h
      constructor <;> dsimp only <;> omega

end Bits

/-! ### The text -/

def signChars : UnpackedFloat.Sign → List Char
  | .negative => ['-']
  | .positive => []

inductive Prints : UnpackedFloat → List Char → Prop
  | nan : Prints .notANumber "NaN".toList
  | infinity (s : UnpackedFloat.Sign) : Prints (.infinity s) (signChars s ++ "inf".toList)
  | zero (s : UnpackedFloat.Sign) : Prints (.zero s) (signChars s ++ ['0'])
  | finite (s : UnpackedFloat.Sign) {m n : ℕ} {e k : ℤ} (hm : 0 < m) (shortest : (Binary.of m e).IsShortest n k) :
      Prints (.finite s m e hm) (signChars s ++ positional n k)

theorem signed_eq (s : UnpackedFloat.Sign) (cs : List Char) : signed (isNegative s) cs = signChars s ++ cs := by
  cases s <;> rfl

theorem finite_plain {b : Binary} (h : b.IsDouble) :
    Layout.plain.finite b.shortest.1 b.shortest.2 = positional b.shortest.1 b.shortest.2 :=
  write_plain (Binary.pos_of_rounds h.pos (Binary.isShortest_shortest h).rounds) _

theorem prints_ofClass {u : UnpackedFloat} (h : ∀ negative b, Class.ofUnpacked u = .finite negative b → b.IsDouble) :
    Prints u (Layout.plain.ofClass (Class.ofUnpacked u)) := by
  cases u with
  | notANumber => exact .nan
  | infinity s =>
    change Prints _ (signed (isNegative s) _)
    rw [signed_eq]
    exact .infinity s
  | zero s =>
    change Prints _ (signed (isNegative s) _)
    rw [signed_eq]
    exact .zero s
  | finite s m e hm =>
    have double := h _ _ rfl
    change Prints _ (signed (isNegative s) (Layout.plain.finite _ _))
    rw [signed_eq, finite_plain double]
    exact .finite s hm (Binary.isShortest_shortest double)

theorem Prints.unique {u : UnpackedFloat} {cs ds : List Char} (h : Prints u cs) (h' : Prints u ds) : cs = ds := by
  cases h with
  | nan => cases h'; rfl
  | infinity => cases h'; rfl
  | zero => cases h'; rfl
  | finite s hm shortest =>
    cases h' with
    | finite _ _ shortest' =>
      obtain ⟨rfl, rfl⟩ := shortest.unique shortest'
      rfl

/-- The text of a double is its shortest decimal without an exponent. -/
theorem text_plain_iff {x : Float} {text : String} : Layout.plain.text x = text ↔ Prints x.toModel.unpack text.toList := by
  have same : Class.ofFloat x = Class.ofUnpacked x.toModel.unpack := ofBits_eq x.toModel.toBits.toBitVec
  have prints : Prints x.toModel.unpack (Layout.plain.ofClass (Class.ofFloat x)) := by
    rw [same]
    exact prints_ofClass fun _ _ h => isDouble_of_ofBits (same.trans h)
  rw [Layout.text, ← String.toList_inj, String.toList_ofList]
  constructor
  · intro h
    rwa [← h]
  · exact prints.unique

end Stencil.Decimal
