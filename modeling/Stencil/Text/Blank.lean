/-! Blank characters, that is those with the Unicode property White_Space, and trimming.
HTML has a narrower notion of its own, `Markup.isSpace`. -/

namespace Stencil.Text

/-- The 25 characters with the property White_Space. -/
def isBlank (c : Char) : Bool :=
  ('\t' ≤ c && c ≤ '\r') || c = ' ' || c = '\u0085' || c = '\u00a0' || c = '\u1680' ||
  ('\u2000' ≤ c && c ≤ '\u200a') || c = '\u2028' || c = '\u2029' || c = '\u202f' ||
  c = '\u205f' || c = '\u3000'

def trimStart (s : List Char) : List Char := s.dropWhile isBlank

def trimEnd (s : List Char) : List Char := (s.reverse.dropWhile isBlank).reverse

def trim (s : List Char) : List Char := trimEnd (trimStart s)

theorem toNat_bounds {a b ch : Char} (h : a ≤ ch ∧ ch ≤ b) : a.toNat ≤ ch.toNat ∧ ch.toNat ≤ b.toNat := h

theorem isBlank_bounds {ch : Char} (h : isBlank ch) : ch.toNat ≤ 32 ∨ 133 ≤ ch.toNat := by
  simp only [isBlank, Bool.or_eq_true, Bool.and_eq_true, decide_eq_true_eq] at h
  rcases h with (((((((((h | h) | h) | h) | h) | h) | h) | h) | h) | h) | h
  · exact .inl (Nat.le_trans (toNat_bounds h).2 (by decide))
  · exact .inl (by rw [h]; decide)
  · exact .inr (by rw [h]; decide)
  · exact .inr (by rw [h]; decide)
  · exact .inr (by rw [h]; decide)
  · exact .inr (Nat.le_trans (by decide) (toNat_bounds h).1)
  all_goals exact .inr (by rw [h]; decide)

theorem trimStart_eq_nil_iff {s : List Char} : trimStart s = [] ↔ ∀ c ∈ s, isBlank c := by
  induction s with
  | nil => simp [trimStart]
  | cons c s ih =>
    by_cases h : isBlank c
    · rw [show trimStart (c :: s) = trimStart s by simp [trimStart, h], ih]
      simp [h]
    · simp [trimStart, h]

theorem trim_eq_nil_of_blank {s : List Char} (h : ∀ c ∈ s, isBlank c) : trim s = [] := by
  simp [trim, trimStart_eq_nil_iff.2 h, trimEnd]

theorem trimEnd_eq_nil_iff {s : List Char} : trimEnd s = [] ↔ ∀ c ∈ s, isBlank c := by
  rw [trimEnd, List.reverse_eq_nil_iff]
  exact trimStart_eq_nil_iff.trans (by simp)

theorem trimEnd_prefix (s : List Char) : trimEnd s <+: s := by
  have h := List.reverse_prefix.2 (List.dropWhile_suffix isBlank (l := s.reverse))
  rwa [List.reverse_reverse] at h

theorem head?_dropWhile {p : Char → Bool} {s : List Char} : ∀ c ∈ (s.dropWhile p).head?, p c = false := by
  intro c hc
  have first := List.head?_dropWhile_not p s
  rwa [Option.mem_def.1 hc] at first

theorem first_trimStart (s : List Char) : ∀ c ∈ (trimStart s).head?, isBlank c = false := head?_dropWhile

theorem trim_eq_nil_iff {s : List Char} : trim s = [] ↔ ∀ c ∈ s, isBlank c := by
  refine ⟨fun h => ?_, trim_eq_nil_of_blank⟩
  have h : ∀ c ∈ trimStart s, isBlank c := trimEnd_eq_nil_iff.1 h
  cases hs : trimStart s with
  | nil => exact trimStart_eq_nil_iff.1 hs
  | cons c cs =>
    have hc : isBlank c = true := h c (by simp [hs])
    exact absurd hc (by simp [first_trimStart s c (by simp [hs])])

/-- Neither the first nor the last character is blank. -/
structure IsTrimmed (s : List Char) : Prop where
  first : ∀ c ∈ s.head?, isBlank c = false
  last : ∀ c ∈ s.getLast?, isBlank c = false

theorem isTrimmed_trim (s : List Char) : IsTrimmed (trim s) := by
  constructor
  · intro c hc
    obtain ⟨rest, hrest⟩ := trimEnd_prefix (trimStart s)
    refine first_trimStart s c ?_
    rw [← hrest, List.head?_append]
    exact Option.mem_def.2 (by rw [show (trimEnd (trimStart s)).head? = some c from hc]; rfl)
  · intro c hc
    rw [trim, trimEnd, List.getLast?_reverse] at hc
    exact first_trimStart (trimStart s).reverse c hc

theorem trimStart_eq_self {s : List Char} (h : ∀ c ∈ s.head?, isBlank c = false) : trimStart s = s := by
  cases s with
  | nil => rfl
  | cons c s => simp [trimStart, h c rfl]

theorem trimEnd_eq_self {s : List Char} (h : ∀ c ∈ s.getLast?, isBlank c = false) : trimEnd s = s := by
  have reversed : trimStart s.reverse = s.reverse := trimStart_eq_self (by simpa using h)
  rw [trimStart] at reversed
  rw [trimEnd, reversed, List.reverse_reverse]

theorem IsTrimmed.trim_eq {s : List Char} (h : IsTrimmed s) : trim s = s := by
  rw [trim, trimStart_eq_self h.first, trimEnd_eq_self h.last]

theorem IsTrimmed.append {s t : List Char} (hs : IsTrimmed s) (ht : IsTrimmed t) (hs' : s ≠ []) (ht' : t ≠ []) :
    IsTrimmed (s ++ t) := by
  obtain ⟨c, s, rfl⟩ := List.exists_cons_of_ne_nil hs'
  refine ⟨hs.first, fun d hd => ht.last d ?_⟩
  rw [List.getLast?_append, List.getLast?_eq_some_getLast ht', Option.some_or] at hd
  rw [List.getLast?_eq_some_getLast ht']
  exact hd

end Stencil.Text
