import Mathlib.Algebra.Order.Field.Power
import Mathlib.Data.Rat.Floor
import Stencil.Decimal.Shortest

/-! The search on decimal grids ends with the shortest decimal of a double. What rounds to the double is an interval
around it, hence a grid has a point in the interval only if one of the two points next to the double is in it. The first
grid of the search is too coarse for any, and the last one fine enough for some. -/

namespace Stencil.Decimal

namespace Binary

/-- A positive double of 64 bits. -/
structure IsDouble (b : Binary) : Prop where
  pos : 0 < b.significand
  bits : b.significand < 2 ^ 53
  small : -1074 ≤ b.exponent
  large : b.exponent ≤ 971

def value (b : Binary) : ℚ := b.significand * 2 ^ b.exponent

/-- Halfway to the double below. -/
def low (b : Binary) : ℚ := b.value - if b.atPower then 2 ^ b.exponent / 4 else 2 ^ b.exponent / 2

/-- Halfway to the double above. -/
def high (b : Binary) : ℚ := b.value + 2 ^ b.exponent / 2

/-- The numbers that are rounded to the double, those halfway only if its significand is even. -/
def Rounds (b : Binary) (x : ℚ) : Prop :=
  (b.low < x ∧ x < b.high) ∨ (Even b.significand ∧ b.low ≤ x ∧ x ≤ b.high)

/-- The decimal `n · 10 ^ k` is rounded to the double, and of those with this power that are it is the nearest, the upper
one of two that are as near. -/
structure IsNearest (b : Binary) (n : ℕ) (k : ℤ) : Prop where
  rounds : b.Rounds (n * 10 ^ k)
  nearest : ∀ n' : ℕ, b.Rounds (n' * 10 ^ k) → |b.value - n * 10 ^ k| ≤ |b.value - n' * 10 ^ k|
  upper : ∀ n' : ℕ, b.Rounds (n' * 10 ^ k) → |b.value - n * 10 ^ k| = |b.value - n' * 10 ^ k| → n' ≤ n

/-- No decimal with a higher power of ten is rounded to the double. -/
structure IsShortest (b : Binary) (n : ℕ) (k : ℤ) : Prop extends b.IsNearest n k where
  coarsest : ∀ (n' : ℕ) (k' : ℤ), b.Rounds (n' * 10 ^ k') → k' ≤ k

theorem IsShortest.unique {b : Binary} {n n' : ℕ} {k k' : ℤ} (h : b.IsShortest n k) (h' : b.IsShortest n' k') :
    n = n' ∧ k = k' := by
  obtain rfl : k = k' := le_antisymm (h'.coarsest n k h.rounds) (h.coarsest n' k' h'.rounds)
  have near := le_antisymm (h.nearest n' h'.rounds) (h'.nearest n h.rounds)
  exact ⟨le_antisymm (h'.upper n h.rounds near.symm) (h.upper n' h'.rounds near), rfl⟩

/-! ### The interval -/

section Interval

variable {b : Binary} {x y : ℚ}

theorem low_lt_value (b : Binary) : b.low < b.value := by
  have : (0 : ℚ) < 2 ^ b.exponent := by positivity
  unfold low
  split <;> linarith

theorem value_lt_high (b : Binary) : b.value < b.high := by
  have : (0 : ℚ) < 2 ^ b.exponent := by positivity
  unfold high
  linarith

theorem low_pos (h : 0 < b.significand) : 0 < b.low := by
  have gap : (0 : ℚ) < 2 ^ b.exponent := by positivity
  have : (1 : ℚ) ≤ b.significand := by exact_mod_cast h
  have : 2 ^ b.exponent ≤ b.value := le_mul_of_one_le_left gap.le this
  unfold low
  split <;> linarith

theorem Rounds.bounds (h : b.Rounds x) : b.low ≤ x ∧ x ≤ b.high := by
  rcases h with ⟨hlow, hhigh⟩ | ⟨-, hlow, hhigh⟩
  · exact ⟨hlow.le, hhigh.le⟩
  · exact ⟨hlow, hhigh⟩

theorem pos_of_rounds {n : ℕ} {k : ℤ} (hb : 0 < b.significand) (h : b.Rounds (n * 10 ^ k)) : 0 < n := by
  rcases Nat.eq_zero_or_pos n with rfl | hn
  · have := h.bounds.1
    have := low_pos hb
    rw [Nat.cast_zero, zero_mul] at *
    linarith
  · exact hn

theorem Rounds.up (h : b.Rounds x) (hxy : x ≤ y) (hy : y ≤ b.value) : b.Rounds y := by
  have hhigh := value_lt_high b
  rcases h with ⟨hlow, -⟩ | ⟨heven, hlow, -⟩
  · exact .inl ⟨by linarith, by linarith⟩
  · exact .inr ⟨heven, by linarith, by linarith⟩

theorem Rounds.down (h : b.Rounds x) (hyx : y ≤ x) (hy : b.value ≤ y) : b.Rounds y := by
  have hlow := low_lt_value b
  rcases h with ⟨-, hhigh⟩ | ⟨heven, -, hhigh⟩
  · exact .inl ⟨by linarith, by linarith⟩
  · exact .inr ⟨heven, by linarith, by linarith⟩

end Interval

/-! ### One grid -/

theorem ratioPow_eq {base : ℕ} (hbase : 0 < base) (n : ℤ) :
    0 < (ratioPow base n).2 ∧ ((ratioPow base n).1 : ℚ) = base ^ n * (ratioPow base n).2 := by
  have nonzero : (base : ℚ) ≠ 0 := by exact_mod_cast hbase.ne'
  refine ⟨Nat.pow_pos hbase, ?_⟩
  obtain ⟨m, rfl | rfl⟩ := n.eq_nat_or_neg
  · simp [ratioPow]
  · simp [ratioPow, nonzero]

theorem quarter_eq (e : ℤ) : (2 : ℚ) ^ (e - 2) = 2 ^ e / 4 := by
  rw [zpow_sub₀ two_ne_zero]
  norm_num

theorem scales_eq (b : Binary) (k : ℤ) : ∃ u : ℚ, 0 < u ∧ ((b.scales k).1 : ℚ) = 2 ^ (b.exponent - 2) * u ∧
    ((b.scales k).2 : ℚ) = 10 ^ k * u := by
  obtain ⟨hdown, hup⟩ := ratioPow_eq (two_pos : 0 < 2) (b.exponent - 2)
  obtain ⟨hpart, hgrid⟩ := ratioPow_eq (by decide : 0 < 10) k
  refine ⟨(ratioPow 2 (b.exponent - 2)).2 * (ratioPow 10 k).2, by positivity, ?_, ?_⟩
  · simp only [scales, Nat.cast_mul, hup]
    push_cast
    ring
  · simp only [scales, Nat.cast_mul, hgrid]
    push_cast
    ring

section Grid

variable {b : Binary} {k : ℤ} {quarter step : ℕ} {u : ℚ}

theorem isInside_iff (hb : 0 < b.significand) (hu : 0 < u) (hquarter : (quarter : ℚ) = 2 ^ (b.exponent - 2) * u)
    (hstep : (step : ℚ) = 10 ^ k * u) (n : ℕ) : b.isInside quarter step n ↔ b.Rounds (n * 10 ^ k) := by
  have hpoint : ((n * step : ℕ) : ℚ) = n * 10 ^ k * u := by
    rw [Nat.cast_mul, hstep]
    ring
  have hlow : (((4 * b.significand - if b.atPower then 1 else 2) * quarter : ℕ) : ℚ) = b.low * u := by
    have enough : (if b.atPower then 1 else 2) ≤ 4 * b.significand := by split <;> omega
    rw [Nat.cast_mul, Nat.cast_sub enough, hquarter, quarter_eq, low, value]
    split <;> push_cast <;> ring
  have hhigh : (((4 * b.significand + 2) * quarter : ℕ) : ℚ) = b.high * u := by
    rw [Nat.cast_mul, hquarter, quarter_eq, high, value]
    push_cast
    ring
  have le : ∀ {i j : ℕ} {x y : ℚ}, (i : ℚ) = x * u → (j : ℚ) = y * u → (i ≤ j ↔ x ≤ y) := by
    intro i j x y hi hj
    rw [← Nat.cast_le (α := ℚ), hi, hj, mul_le_mul_iff_of_pos_right hu]
  have lt : ∀ {i j : ℕ} {x y : ℚ}, (i : ℚ) = x * u → (j : ℚ) = y * u → (i < j ↔ x < y) := by
    intro i j x y hi hj
    rw [← Nat.cast_lt (α := ℚ), hi, hj, mul_lt_mul_iff_of_pos_right hu]
  unfold isInside Rounds
  by_cases heven : b.significand % 2 = 0
  · simp only [if_pos heven, Bool.and_eq_true, decide_eq_true_eq, le hlow hpoint, le hpoint hhigh,
      Nat.even_iff.2 heven, true_and]
    exact (or_iff_right_of_imp fun h => ⟨h.1.le, h.2.le⟩).symm
  · have odd : ¬ Even b.significand := fun h => heven (Nat.even_iff.1 h)
    simp only [if_neg heven, Bool.and_eq_true, decide_eq_true_eq, lt hlow hpoint, lt hpoint hhigh, odd, false_and, or_false]

theorem point_le {i j : ℕ} (hij : i ≤ j) (k : ℤ) : (i : ℚ) * 10 ^ k ≤ j * 10 ^ k := by
  gcongr

theorem point_lt {i j : ℕ} (hij : i < j) (k : ℤ) : (i : ℚ) * 10 ^ k < j * 10 ^ k := by
  gcongr

/-- The double is between this point of a grid and the next one. -/
structure IsBelow (n : ℕ) (k : ℤ) (b : Binary) : Prop where
  le : n * 10 ^ k ≤ b.value
  lt : b.value < (n + 1 : ℕ) * 10 ^ k

namespace IsBelow

variable {n n' : ℕ} (h : IsBelow n k b)

include h

theorem distance_of_le (hn : n' ≤ n) : |b.value - n' * 10 ^ k| = b.value - n' * 10 ^ k := by
  have := (point_le hn k).trans h.le
  exact abs_of_nonneg (by linarith)

theorem distance_of_lt (hn : n < n') : |b.value - n' * 10 ^ k| = n' * 10 ^ k - b.value := by
  have := h.lt.trans_le (point_le hn k)
  rw [abs_of_neg (by linarith), neg_sub]

theorem rounds_of_le (hn : n' ≤ n) (hr : b.Rounds (n' * 10 ^ k)) : b.Rounds (n * 10 ^ k) :=
  hr.up (point_le hn k) h.le

theorem rounds_of_lt (hn : n < n') (hr : b.Rounds (n' * 10 ^ k)) : b.Rounds ((n + 1 : ℕ) * 10 ^ k) :=
  hr.down (point_le hn k) h.lt.le

theorem isNearest (hr : b.Rounds (n * 10 ^ k))
    (other : b.Rounds ((n + 1 : ℕ) * 10 ^ k) → b.value - n * 10 ^ k < (n + 1 : ℕ) * 10 ^ k - b.value) :
    b.IsNearest n k := by
  have strict : ∀ n' : ℕ, n < n' → b.Rounds (n' * 10 ^ k) → |b.value - n * 10 ^ k| < |b.value - n' * 10 ^ k| := by
    intro n' hn hr'
    have nearer := other (h.rounds_of_lt hn hr')
    have := point_le (Nat.succ_le_of_lt hn) k
    rw [h.distance_of_le le_rfl, h.distance_of_lt hn]
    linarith
  refine ⟨hr, fun n' hr' => ?_, fun n' hr' tie => ?_⟩
  · rcases le_or_gt n' n with hn | hn
    · rw [h.distance_of_le le_rfl, h.distance_of_le hn]
      linarith [point_le hn k]
    · exact (strict n' hn hr').le
  · by_contra hn
    exact (strict n' (not_le.1 hn) hr').ne tie

theorem isNearest_succ (hr : b.Rounds ((n + 1 : ℕ) * 10 ^ k))
    (other : b.Rounds (n * 10 ^ k) → (n + 1 : ℕ) * 10 ^ k - b.value ≤ b.value - n * 10 ^ k) :
    b.IsNearest (n + 1) k := by
  refine ⟨hr, fun n' hr' => ?_, fun n' hr' tie => ?_⟩
  · rw [h.distance_of_lt n.lt_succ_self]
    rcases le_or_gt n' n with hn | hn
    · have nearer := other (h.rounds_of_le hn hr')
      have := point_le hn k
      rw [h.distance_of_le hn]
      linarith
    · rw [h.distance_of_lt hn]
      linarith [point_le (Nat.succ_le_of_lt hn) k]
  · by_contra hn
    have farther := point_lt (not_le.1 hn) k
    rw [h.distance_of_lt n.lt_succ_self, h.distance_of_lt (n.lt_succ_self.trans (not_le.1 hn))] at tie
    linarith

end IsBelow

theorem exists_isBelow (b : Binary) (k : ℤ) : ∃ n, IsBelow n k b := by
  have step : (0 : ℚ) < 10 ^ k := by positivity
  have nonneg : 0 ≤ b.value / 10 ^ k := div_nonneg (mul_nonneg (by positivity) (by positivity)) step.le
  refine ⟨⌊b.value / 10 ^ k⌋₊, (le_div_iff₀ step).1 (Nat.floor_le nonneg), ?_⟩
  rw [Nat.cast_succ]
  exact (div_lt_iff₀ step).1 (Nat.lt_floor_add_one _)

section Division

variable {v : ℕ} (hu : 0 < u) (hvalue : (v : ℚ) = b.value * u) (hstep : (step : ℚ) = 10 ^ k * u)

include hu hvalue hstep

theorem isBelow_div : IsBelow (v / step) k b := by
  have positive : 0 < step := by
    have : (0 : ℚ) < step := by rw [hstep]; positivity
    exact_mod_cast this
  constructor
  · have le : ((v / step * step : ℕ) : ℚ) ≤ v := by exact_mod_cast Nat.div_mul_le_self v step
    rw [Nat.cast_mul, hstep, hvalue, ← mul_assoc] at le
    exact le_of_mul_le_mul_right le hu
  · have lt : (v : ℚ) < ((v / step + 1) * step : ℕ) := by exact_mod_cast Nat.lt_mul_of_div_lt (Nat.lt_succ_self _) positive
    rw [Nat.cast_mul, hstep, hvalue, ← mul_assoc] at lt
    exact lt_of_mul_lt_mul_right lt hu.le

theorem nearer_succ_iff : step ≤ 2 * (v % step) ↔
    ((v / step + 1 : ℕ) : ℚ) * 10 ^ k - b.value ≤ b.value - (v / step : ℕ) * 10 ^ k := by
  have parts : (v : ℚ) = step * (v / step : ℕ) + (v % step : ℕ) := by exact_mod_cast (Nat.div_add_mod v step).symm
  rw [hstep, hvalue] at parts
  have rest : ((v % step : ℕ) : ℚ) = (b.value - (v / step : ℕ) * 10 ^ k) * u := by linarith
  rw [← Nat.cast_le (α := ℚ), Nat.cast_mul, rest, hstep, ← mul_assoc, mul_le_mul_iff_of_pos_right hu]
  push_cast
  constructor
  · intro h
    linarith
  · intro h
    linarith

end Division

/-- What is found on a grid is the nearest point that is rounded to the double, and if nothing is found there is none. -/
theorem onGrid?_spec (hb : 0 < b.significand) (k : ℤ) :
    match b.onGrid? k with
    | some n => b.IsNearest n k
    | none => ∀ n : ℕ, ¬ b.Rounds (n * 10 ^ k) := by
  obtain ⟨u, hu, hquarter, hstep⟩ := b.scales_eq k
  unfold onGrid?
  generalize b.scales k = scales at hquarter hstep ⊢
  obtain ⟨quarter, step⟩ := scales
  dsimp only at hquarter hstep ⊢
  have hvalue : ((4 * b.significand * quarter : ℕ) : ℚ) = b.value * u := by
    rw [Nat.cast_mul, hquarter, quarter_eq, value]
    push_cast
    ring
  generalize 4 * b.significand * quarter = v at hvalue ⊢
  have below := isBelow_div hu hvalue hstep
  have nearer := nearer_succ_iff hu hvalue hstep
  have inside := isInside_iff hb hu hquarter hstep
  have outside : ∀ {n : ℕ}, b.isInside quarter step n = false → ¬ b.Rounds (n * 10 ^ k) := by
    intro n hn hr
    rw [(inside n).2 hr] at hn
    cases hn
  cases hlow : b.isInside quarter step (v / step) with
  | true =>
    have rounds := (inside _).1 hlow
    cases hhigh : b.isInside quarter step (v / step + 1) with
    | true =>
      dsimp only
      split
      · next above => exact below.isNearest_succ ((inside _).1 hhigh) fun _ => nearer.1 above
      · next notAbove => exact below.isNearest rounds fun _ => lt_of_not_ge (mt nearer.2 notAbove)
    | false => exact below.isNearest rounds fun hr => absurd hr (outside hhigh)
  | false =>
    cases hhigh : b.isInside quarter step (v / step + 1) with
    | true => exact below.isNearest_succ ((inside _).1 hhigh) fun hr => absurd hr (outside hlow)
    | false =>
      intro n hr
      rcases le_or_gt n (v / step) with hn | hn
      · exact outside hlow (below.rounds_of_le hn hr)
      · exact outside hhigh (below.rounds_of_lt hn hr)

end Grid

/-! ### Powers of two and of ten -/

section Powers

variable {x y : ℚ} {i j m t : ℤ}

theorem zpow_mul_le (hx : 0 < x) (h : x ^ i ≤ y ^ j) (hm : 0 ≤ m) : x ^ (i * m) ≤ y ^ (j * m) := by
  rw [zpow_mul, zpow_mul]
  exact zpow_le_zpow_left₀ hm (by positivity) h

theorem zpow_mul_ge (hx : 0 < x) (h : x ^ i ≤ y ^ j) (hm : m ≤ 0) : y ^ (j * m) ≤ x ^ (i * m) := by
  have inverse := inv_anti₀ (by positivity) (zpow_mul_le hx h (neg_nonneg.2 hm))
  rwa [← zpow_neg, ← zpow_neg, mul_neg, mul_neg, neg_neg, neg_neg] at inverse

theorem zpow_le_of_mul_le (hx : 0 < x) (hy : 0 < y) (hi : 0 < i) (h : x ^ (i * m) ≤ y ^ (i * t)) : x ^ m ≤ y ^ t := by
  rw [mul_comm, zpow_mul, mul_comm, zpow_mul] at h
  exact (zpow_le_zpow_iff_left₀ (by positivity) (by positivity) hi).1 h

/-- `2 ^ 93` is a little less than `10 ^ 28`, and `2 ^ 103` a little more than `10 ^ 31`. -/
theorem two_zpow_le_ten (up : 28 * m ≤ 93 * t) (down : 31 * m ≤ 103 * t) : (2 : ℚ) ^ m ≤ 10 ^ t := by
  rcases le_total 0 m with hm | hm
  · have near : (2 : ℚ) ^ (93 : ℤ) ≤ 10 ^ (28 : ℤ) := by norm_num
    apply zpow_le_of_mul_le two_pos (by norm_num) (i := 93) (by decide)
    exact (zpow_mul_le two_pos near hm).trans (zpow_le_zpow_right₀ (by norm_num) up)
  · have near : (10 : ℚ) ^ (31 : ℤ) ≤ 2 ^ (103 : ℤ) := by norm_num
    apply zpow_le_of_mul_le two_pos (by norm_num) (i := 103) (by decide)
    exact (zpow_mul_ge (by norm_num) near hm).trans (zpow_le_zpow_right₀ (by norm_num) down)

theorem ten_zpow_le_two (up : 103 * t ≤ 31 * m) (down : 93 * t ≤ 28 * m) : (10 : ℚ) ^ t ≤ 2 ^ m := by
  rcases le_total 0 t with ht | ht
  · have near : (10 : ℚ) ^ (31 : ℤ) ≤ 2 ^ (103 : ℤ) := by norm_num
    apply zpow_le_of_mul_le (by norm_num) two_pos (i := 31) (by decide)
    exact (zpow_mul_le (by norm_num) near ht).trans (zpow_le_zpow_right₀ (by norm_num) up)
  · have near : (2 : ℚ) ^ (93 : ℤ) ≤ 10 ^ (28 : ℤ) := by norm_num
    apply zpow_le_of_mul_le (by norm_num) two_pos (i := 28) (by decide)
    exact (zpow_mul_ge two_pos near ht).trans (zpow_le_zpow_right₀ (by norm_num) down)

end Powers

/-! ### The search -/

theorem IsDouble.log2_le {b : Binary} (h : b.IsDouble) : Nat.log2 b.significand ≤ 52 :=
  Nat.lt_succ_iff.1 ((Nat.log2_lt h.pos.ne').2 h.bits)

section Search

variable {b : Binary} (h : b.IsDouble)

include h

theorem high_lt_topGrid : b.high < 10 ^ b.topGrid := by
  have bits : b.significand < 2 ^ (Nat.log2 b.significand + 1) := Nat.lt_log2_self
  have less : (b.significand : ℚ) + 1 / 2 < 2 ^ (Nat.log2 b.significand + 1) := by
    have : (b.significand : ℚ) + 1 ≤ 2 ^ (Nat.log2 b.significand + 1) := by exact_mod_cast bits
    linarith
  have few := h.log2_le
  have small := h.small
  have large := h.large
  calc b.high = (b.significand + 1 / 2) * 2 ^ b.exponent := by rw [high, value]; ring
    _ < 2 ^ (Nat.log2 b.significand + 1) * 2 ^ b.exponent := by gcongr
    _ = 2 ^ (b.exponent + Nat.log2 b.significand + 1) := by
      rw [← zpow_natCast, ← zpow_add₀ two_ne_zero]
      congr 1
      push_cast
      ring
    _ ≤ 10 ^ b.topGrid := by
      unfold topGrid
      apply two_zpow_le_ten <;> omega

theorem lt_topGrid {n : ℕ} {k : ℤ} (hr : b.Rounds (n * 10 ^ k)) : k < b.topGrid := by
  by_contra hk
  have coarse : (10 : ℚ) ^ b.topGrid ≤ 10 ^ k := zpow_le_zpow_right₀ (by norm_num) (not_lt.1 hk)
  have first : ((1 : ℕ) : ℚ) * 10 ^ k ≤ n * 10 ^ k := point_le (pos_of_rounds h.pos hr) k
  have := hr.bounds.2
  have := high_lt_topGrid h
  rw [Nat.cast_one, one_mul] at first
  linarith

theorem exists_onGrid? : ∃ n, b.onGrid? (b.topGrid - 23) = some n := by
  have few := h.log2_le
  have small := h.small
  have large := h.large
  have fine : (10 : ℚ) ^ (b.topGrid - 23) ≤ 2 ^ b.exponent / 2 := by
    have half : (2 : ℚ) ^ b.exponent / 2 = 2 ^ (b.exponent - 1) := by rw [zpow_sub_one₀ two_ne_zero]; rfl
    rw [half]
    unfold topGrid
    apply ten_zpow_le_two <;> omega
  generalize b.topGrid - 23 = k at fine ⊢
  have spec := onGrid?_spec h.pos k
  cases hk : b.onGrid? k with
  | some n => exact ⟨n, rfl⟩
  | none =>
    rw [hk] at spec
    obtain ⟨n, below⟩ := exists_isBelow b k
    have next : ((n + 1 : ℕ) : ℚ) * 10 ^ k = n * 10 ^ k + 10 ^ k := by
      push_cast
      ring
    have low := b.low_lt_value
    have high : b.high = b.value + 2 ^ b.exponent / 2 := rfl
    rcases below.le.lt_or_eq with between | exact
    · refine absurd (.inl ⟨low.trans below.lt, ?_⟩) (spec (n + 1))
      linarith
    · refine absurd (.inl ⟨?_, ?_⟩) (spec n)
      · exact exact ▸ low
      · exact exact ▸ b.value_lt_high

theorem isShortest_search {fuel j : ℕ} {k : ℤ} (top : ∀ (n : ℕ) (k' : ℤ), b.Rounds (n * 10 ^ k') → k' ≤ k) (hj : j < fuel)
    (found : ∃ n, b.onGrid? (k - j) = some n) : b.IsShortest (b.search fuel k).1 (b.search fuel k).2 := by
  induction fuel generalizing j k with
  | zero => cases hj
  | succ fuel ih =>
    have spec := onGrid?_spec h.pos k
    rw [search]
    cases hk : b.onGrid? k with
    | some n =>
      rw [hk] at spec
      exact ⟨spec, top⟩
    | none =>
      rw [hk] at spec
      cases j with
      | zero =>
        obtain ⟨n, hn⟩ := found
        rw [Nat.cast_zero, sub_zero, hk] at hn
        cases hn
      | succ j =>
        refine ih (fun n k' hr => ?_) (Nat.lt_of_succ_lt_succ hj) ?_
        · have le := top n k' hr
          have ne : k' ≠ k := by
            rintro rfl
            exact spec n hr
          omega
        · rwa [Nat.cast_succ, add_comm, ← sub_sub] at found

theorem isShortest_shortest : b.IsShortest b.shortest.1 b.shortest.2 :=
  isShortest_search h (fun _ _ hr => (lt_topGrid h hr).le) (by decide : 23 < 24) (exists_onGrid? h)

end Search

end Binary
end Stencil.Decimal
