import Stencil.Proofs.Markup.Rounds
import Stencil.Proofs.Text.Slices

/-! Where the scan of attributes stops. It ends on every text. If it meets a `>`, that is behind all quoted values, and what
is declared depends on nothing but the octets up to there. -/

namespace Stencil.Markup.Rounds

open Octets (octets size size_append size_cons slice slice_append exists_of_slice)
open Offsets (scan from? declaredFrom offsetOf)

/-- A character of a name under which an attribute is declared. -/
structure IsDeclaredChar (c : Char) : Prop where
  notBlank : Text.isBlank c = false
  notSlash : c ≠ '/'
  notEquals : c ≠ '='
  notClose : c ≠ '>'
  notCapital : c.isUpper = false

theorem isDeclaredChar_toLower {c : Char} (h : inName c) : IsDeclaredChar c.toLower := by
  rcases Text.toLower_cases c with ⟨hc, hcapital⟩ | ⟨hlow, hhigh, hsmall⟩
  · rw [hc]
    simp only [inName, Bool.not_eq_true', Bool.or_eq_false_iff, decide_eq_false_iff_not] at h
    obtain ⟨⟨⟨hblank, hslash⟩, hequals⟩, hclose⟩ := h
    exact ⟨hblank, hslash, hequals, hclose, Bool.eq_false_iff.2 fun hupper => hcapital (Text.isUpper_iff.1 hupper)⟩
  · -- A capital has become a small letter.
    have range : 97 ≤ c.toLower.toNat ∧ c.toLower.toNat ≤ 122 := by omega
    have other : ∀ d : Char, d.toNat < 97 → c.toLower ≠ d := by
      rintro d hd heq
      rw [heq] at range
      omega
    refine ⟨Bool.eq_false_iff.2 fun hblank => ?_, other '/' (by decide), other '=' (by decide), other '>' (by decide),
      Bool.eq_false_iff.2 fun hupper => ?_⟩
    · have := Text.isBlank_bounds hblank
      omega
    · have := Text.isUpper_iff.1 hupper
      omega

/-- Where quoted values begin and end in rounds of which the first begins at the offset `i`. -/
def quotedFrom : Nat → List Round → List (Nat × Nat)
  | _, [] => []
  | i, r :: rounds => (r.quoted? i).toList ++ quotedFrom (i + size r.written) rounds

theorem le_of_mem_quotedFrom {q : Nat × Nat} {i : Nat} {rounds : List Round} (h : q ∈ quotedFrom i rounds) :
    q.2 ≤ i + size (rounds.flatMap Round.written) := by
  induction rounds generalizing i with
  | nil => cases h
  | cons r rounds ih =>
    rw [quotedFrom, List.mem_append] at h
    rw [List.flatMap_cons, size_append]
    rcases h with here | later
    · have hq : r.quoted? i = some q := by simpa using here
      unfold Round.quoted? at hq
      split at hq
      · cases hq
        dsimp only
        omega
      · cases hq
    · have := ih later
      omega

theorem scan_prefix {s : AttrScan} {i j : Nat} {cs : List Char} {new : List Declared} (h : scan s i cs = (new, some j)) :
    ∃ inside rest, cs = inside ++ rest ∧ inside ≠ [] ∧ j = i + size inside ∧
      ∀ rest', scan s i (inside ++ rest') = (new, some j) := by
  induction cs generalizing s i new with
  | nil => cases h
  | cons c cs ih =>
    cases hstep : s.step c with
    | mk now next =>
      cases next with
      | none =>
        obtain rfl := Offsets.close_of_step hstep
        have closes : ∀ rest, scan s i ('>' :: rest) = (now, some (i + 1)) := by
          intro rest
          rw [scan, hstep]
        rw [closes] at h
        cases h
        exact ⟨['>'], cs, rfl, List.cons_ne_nil _ _, rfl, closes⟩
      | some s' =>
        rw [scan_cons_declares hstep] at h
        cases hlater : scan s' (i + c.utf8Size) cs with
        | mk later stop =>
          rw [hlater] at h
          cases h
          obtain ⟨inside, rest, rfl, -, hj, hrest⟩ := ih hlater
          refine ⟨c :: inside, rest, rfl, List.cons_ne_nil _ _, ?_, fun rest' => ?_⟩
          · rw [hj, size_cons, Nat.add_assoc]
          · rw [List.cons_append, scan_cons_declares hstep, hrest]
            rfl

theorem plain_of_round {s rest : List Char} {r : Round} (h : round? s = some (r, rest)) {d : Declared}
    (hd : d ∈ r.declares) : d.1 ≠ [] ∧ ∀ c ∈ d.1, IsDeclaredChar c := by
  obtain ⟨-, hr⟩ := round?_eq_some_iff.1 h
  obtain ⟨rfl, -⟩ := Prod.mk.inj hr
  rw [Round.declares, AttrScan.declare] at hd
  split at hd
  · cases hd
  · next hne =>
    obtain rfl := List.mem_singleton.1 hd
    refine ⟨by simpa using hne, fun c hc => ?_⟩
    obtain ⟨w, hw, rfl⟩ := List.mem_map.1 hc
    exact isDeclaredChar_toLower (List.mem_takeWhile_imp hw)

theorem Reads.plain {s left : List Char} {rounds : List Round} (h : Reads s rounds left) :
    ∀ d ∈ rounds.flatMap Round.declares, d.1 ≠ [] ∧ ∀ c ∈ d.1, IsDeclaredChar c := by
  induction h with
  | stop => exact nofun
  | next hround _ ih =>
    intro d hd
    rw [List.flatMap_cons, List.mem_append] at hd
    rcases hd with here | later
    · exact plain_of_round hround here
    · exact ih d later

/-- The reading from an offset on ends at the `>` with the offset `i`: it is behind all quoted values, and another source
with the same octets up to it is read alike. -/
structure EndsAt (source : List Char) (offset : Nat) (rounds : List Round) (i : Nat) : Prop where
  behind : offset ≤ i
  close : slice source i (i + 1) = octets ['>']
  unquoted : ∀ q ∈ quotedFrom offset rounds, q.2 ≤ i
  isLocal : ∀ other, slice other offset (i + 1) = slice source offset (i + 1) →
    declaredFrom other offset = declaredFrom source offset

theorem declaredFrom_append {cs : List Char} {new : List Declared} {stop : Option Nat} (h : scan .between 0 cs = (new, stop))
    (before : List Char) :
    declaredFrom (before ++ cs) (size before) = (new, (stop.map (size before + ·)).getD (size (before ++ cs))) := by
  rw [declaredFrom, Offsets.from?_append]
  simp only [h]

/-- What is declared from an offset on are the attributes of the rounds, and where they stop is the end of the tag. -/
theorem Reads.declaredFrom_eq {after left : List Char} {rounds : List Round} (h : Reads after rounds left)
    (before : List Char) : declaredFrom (before ++ after) (size before) = (rounds.flatMap Round.declares,
      if left = [] then size (before ++ after) else size before + offsetOf after left + 1) := by
  rw [declaredFrom_append (h.scan_eq 0), Nat.zero_add]
  split
  · rfl
  · rfl

theorem Reads.endsAt {before after rest : List Char} {rounds : List Round} (h : Reads after rounds ('>' :: rest)) :
    EndsAt (before ++ after) (size before) rounds (size before + offsetOf after ('>' :: rest)) := by
  obtain ⟨gap, -, hafter⟩ := h.written
  have place : size before + offsetOf after ('>' :: rest) = size (before ++ (rounds.flatMap Round.written ++ gap)) := by
    rw [hafter, ← List.append_assoc, Offsets.offsetOf_append, size_append before]
  have source : before ++ after = before ++ (rounds.flatMap Round.written ++ gap) ++ ['>'] ++ rest := by
    rw [hafter]
    simp
  constructor
  · exact Nat.le_add_right _ _
  · have close := slice_append (before ++ (rounds.flatMap Round.written ++ gap)) ['>'] rest
    rw [Offsets.size_concat] at close
    rw [place, source]
    exact close
  · intro q hq
    have := le_of_mem_quotedFrom hq
    rw [place, size_append, size_append]
    omega
  · intro other hother
    have found := h.scan_eq 0
    rw [if_neg (List.cons_ne_nil _ _)] at found
    obtain ⟨inside, later, rfl, hne, hstop, same⟩ := scan_prefix found
    have place : size before + offsetOf (inside ++ later) ('>' :: rest) + 1 = size before + size inside := by omega
    have here := slice_append before inside later
    rw [List.append_assoc, size_append] at here
    rw [place, here] at hother
    obtain ⟨before', later', rfl, hsize⟩ := exists_of_slice hne hother
    rw [List.append_assoc, ← hsize, declaredFrom_append (same later'), hsize, declaredFrom_append (same later)]
    rfl

/-- What becomes of a reading from an offset on, where the source goes on with `after`. It is done in a number of rounds, which
are the text that it passes, and stops at the end of the source or at a `>`. -/
structure EndsSoundly (source : List Char) (offset : Nat) (after : List Char) (rounds : List Round) (left : List Char)
    (stop : Nat) : Prop where
  once : ∀ rounds' left', Reads after rounds' left' ↔ rounds' = rounds ∧ left' = left
  few : rounds.length ≤ after.length
  text : ∃ gap, gap.all isGap ∧ after = rounds.flatMap Round.written ++ (gap ++ left)
  found : declaredFrom source offset = (rounds.flatMap Round.declares, stop)
  declared : ((declared after).1, offsetOf source (declared after).2) = (rounds.flatMap Round.declares, stop)
  names : ∀ d ∈ rounds.flatMap Round.declares, d.1 ≠ [] ∧ ∀ c ∈ d.1, IsDeclaredChar c
  ending : (left = [] ∧ stop = size source) ∨ (left.head? = some '>' ∧ ∃ i, stop = i + 1 ∧ EndsAt source offset rounds i)

theorem declaredFrom_ends {source after : List Char} {offset : Nat} (h : from? source offset = some after) :
    ∃ rounds left stop, EndsSoundly source offset after rounds left stop := by
  obtain ⟨⟨before, rest⟩, hcut, hrest⟩ := Option.map_eq_some_iff.1 h
  obtain ⟨rfl, rfl⟩ := Offsets.of_cut? hcut
  obtain rfl : rest = after := hrest
  obtain ⟨rounds, left, hreads, few⟩ := exists_reads rest
  have once : ∀ rounds' left', Reads rest rounds' left' ↔ rounds' = rounds ∧ left' = left := by
    intro rounds' left'
    refine ⟨hreads.unique, ?_⟩
    rintro ⟨rfl, rfl⟩
    exact hreads
  have found := hreads.declaredFrom_eq before
  have same := Offsets.declaredFrom_at (List.suffix_append before rest)
  rw [Offsets.offsetOf_append] at same
  refine ⟨rounds, left, _, once, few, hreads.written, found, same.symm.trans found, hreads.plain, ?_⟩
  cases left with
  | nil => exact .inl ⟨rfl, rfl⟩
  | cons c rest =>
    obtain rfl : c = '>' := of_decide_eq_true hreads.isEnd_left
    exact .inr ⟨rfl, _, rfl, hreads.endsAt⟩

/-- The first `>` is in a quoted value, the second ends the tag although a value could come there. -/
theorem declaredFrom_ends_valueless :
    let source := "<é a='1>2' B=>x>".toList
    from? source 3 = some " a='1>2' B=>x>".toList ∧
      declaredFrom source 3 = ([(['a'], true), (['b'], true)], 15) ∧
      ∃ rounds left stop, EndsSoundly source 3 " a='1>2' B=>x>".toList rounds left stop := by
  intro source
  have here : from? source 3 = some " a='1>2' B=>x>".toList := by decide +kernel
  exact ⟨here, by decide +kernel, declaredFrom_ends here⟩

end Stencil.Markup.Rounds
