import Stencil.Proofs.Directive.Octets

/-! Slices of a text by octets. An octet shows whether a character begins with it, and the octets of a character whether they
are complete. So if two texts have the same octets in a place where one of them has whole characters, the other has the
same characters there, at the same offset. -/

namespace Stencil.Octets

theorem octets_append (s t : List Char) : octets (s ++ t) = octets s ++ octets t := by simp [octets_eq]

theorem octets_cons (c : Char) (s : List Char) : octets (c :: s) = String.utf8EncodeChar c ++ octets s := by
  simp [octets_eq]

theorem octets_nil : octets [] = [] := by simp [octets_eq]

/-- The octets of a text from an offset up to another. -/
def slice (s : List Char) (i j : Nat) : List UInt8 := ((octets s).drop i).take (j - i)

theorem slice_append (before inside after : List Char) :
    slice (before ++ inside ++ after) (size before) (size (before ++ inside)) = octets inside := by
  have length : size (before ++ inside) - size before = (octets inside).length := by
    rw [size_append, Nat.add_sub_cancel_left]
    rfl
  rw [slice, length, octets_append, octets_append, List.append_assoc, size, List.drop_left, List.take_left]

/-- No octets are those of two characters with something behind them. -/
theorem encode_append_inj {c d : Char} {x y : List UInt8}
    (h : String.utf8EncodeChar c ++ x = String.utf8EncodeChar d ++ y) : c = d ∧ x = y := by
  have decoded : ∀ (c : Char) (x : List UInt8), (String.utf8EncodeChar c ++ x).toByteArray.utf8DecodeChar? 0 = some c := by
    intro c x
    rw [List.toByteArray_append]
    exact ByteArray.utf8DecodeChar?_utf8EncodeChar_append
  have same : some c = some d := by rw [← decoded c x, h, decoded d y]
  obtain rfl := Option.some.inj same
  exact ⟨rfl, List.append_cancel_left h⟩

/-- What begins with the octets of a text begins with that text. -/
theorem exists_append_of_octets {s t : List Char} {bytes : List UInt8} (h : octets s = octets t ++ bytes) :
    ∃ rest, s = t ++ rest := by
  induction t generalizing s with
  | nil => exact ⟨s, rfl⟩
  | cons c t ih =>
    rw [octets_cons, List.append_assoc] at h
    cases s with
    | nil => exact absurd (List.append_eq_nil_iff.1 (h.symm.trans octets_nil)).1 String.utf8EncodeChar_ne_nil
    | cons d s =>
      rw [octets_cons] at h
      obtain ⟨rfl, later⟩ := encode_append_inj h
      obtain ⟨rest, rfl⟩ := ih later
      exact ⟨rest, rfl⟩

/-- Octets that do not continue a character begin one: the text is parted before them. -/
theorem exists_split {s : List Char} {x y : List UInt8} {b : UInt8} (h : octets s = x ++ y) (hb : y.head? = some b)
    (first : b.IsUTF8FirstByte) : ∃ before after, s = before ++ after ∧ octets before = x ∧ octets after = y := by
  induction s generalizing x with
  | nil =>
    obtain ⟨-, rfl⟩ := List.append_eq_nil_iff.1 (h.symm.trans octets_nil)
    cases hb
  | cons c s ih =>
    rw [octets_cons] at h
    by_cases inside : x.length < (String.utf8EncodeChar c).length
    · have here : (String.utf8EncodeChar c)[x.length]? = some b := by
        rw [← List.getElem?_append_left inside, h, List.getElem?_append_right (Nat.le_refl _), Nat.sub_self,
          ← List.head?_eq_getElem?, hb]
      rw [List.getElem?_eq_getElem inside, Option.some.injEq] at here
      have zero : x.length = 0 := UInt8.isUTF8FirstByte_getElem_utf8EncodeChar.1 (here ▸ first)
      obtain rfl := List.length_eq_zero_iff.1 zero
      exact ⟨[], c :: s, rfl, rfl, (octets_cons c s).trans h⟩
    · have begins : String.utf8EncodeChar c <+: x := by
        apply List.prefix_of_prefix_length_le (List.prefix_append _ (octets s)) (h ▸ List.prefix_append x y)
        omega
      obtain ⟨x', rfl⟩ := begins
      rw [List.append_assoc] at h
      obtain ⟨before, after, rfl, hbefore, hafter⟩ := ih (List.append_cancel_left h)
      exact ⟨c :: before, after, rfl, by rw [octets_cons, hbefore], hafter⟩

theorem head?_octets {s : List Char} (hne : s ≠ []) : ∃ b, (octets s).head? = some b ∧ b.IsUTF8FirstByte := by
  obtain ⟨c, cs, rfl⟩ := List.exists_cons_of_ne_nil hne
  have some : 0 < (String.utf8EncodeChar c).length := by
    rw [String.length_utf8EncodeChar]
    exact c.utf8Size_pos
  refine ⟨(String.utf8EncodeChar c)[0], ?_, UInt8.isUTF8FirstByte_getElem_utf8EncodeChar.2 rfl⟩
  rw [octets_cons, List.head?_eq_getElem?, List.getElem?_append_left some, List.getElem?_eq_getElem some]

theorem exists_of_slice {s inside : List Char} {n : Nat} (hne : inside ≠ [])
    (h : slice s n (n + size inside) = octets inside) : ∃ before after, s = before ++ inside ++ after ∧ size before = n := by
  obtain ⟨b, hb, first⟩ := head?_octets hne
  rw [slice, Nat.add_sub_cancel_left] at h
  have enough : n ≤ (octets s).length := by
    by_contra short
    rw [List.drop_eq_nil_of_le (by omega), List.take_nil] at h
    rw [← h] at hb
    cases hb
  have parts : octets s = (octets s).take n ++ (octets inside ++ ((octets s).drop n).drop (size inside)) := by
    rw [← h, List.take_append_drop, List.take_append_drop]
  obtain ⟨before, after, rfl, hbefore, hafter⟩ := exists_split parts (by rw [List.head?_append, hb]; rfl) first
  obtain ⟨rest, rfl⟩ := exists_append_of_octets hafter
  refine ⟨before, rest, (List.append_assoc _ _ _).symm, ?_⟩
  rw [size, hbefore, List.length_take, Nat.min_eq_left enough]

end Stencil.Octets
