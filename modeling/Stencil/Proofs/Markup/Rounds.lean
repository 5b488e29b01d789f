import Stencil.Proofs.Markup.Offsets

/-! The attributes of a start tag read in rounds, without a state between two characters. A round takes what separates
attributes, a name and perhaps a value, each as far as it goes, and nothing bounds the number of rounds beforehand. Since each
round takes a character the rounds come to an end, and what they declare and where they stop is what the scan finds. -/

namespace Stencil.Markup.Rounds

open Octets (size size_append size_cons)
open Text (head?_dropWhile)
open Offsets (scan offsetOf offsetOf_append offsetOf_trans)

def isGap (c : Char) : Bool := Text.isBlank c || c = '/'

def inName (c : Char) : Bool := !(Text.isBlank c || c = '/' || c = '=' || c = '>')

def inBare (c : Char) : Bool := !(Text.isBlank c || c = '>')

def isQuote (c : Char) : Bool := c = '"' || c = '\''

/-- A value as it is written. A quoted one goes on up to its quote, or to the end of the source without one. -/
inductive Value
  | quoted (quote : Char) (inside closing : List Char)
  | bare (text : List Char)
  deriving DecidableEq

def Value.written : Value → List Char
  | quoted quote inside closing => quote :: (inside ++ closing)
  | bare text => text

def value : List Char → Value × List Char
  | [] => (.bare [], [])
  | c :: cs =>
    if isQuote c then
      (.quoted c (cs.takeWhile (· ≠ c)) ((cs.dropWhile (· ≠ c)).take 1), (cs.dropWhile (· ≠ c)).drop 1)
    else (.bare ((c :: cs).takeWhile inBare), (c :: cs).dropWhile inBare)

/-- An `=`, the blanks after it and a value, if there is an `=` at the head of a text, and what follows. -/
def assigned : List Char → Option (List Char × Value) × List Char
  | [] => (none, [])
  | c :: cs =>
    if c = '=' then
      (some (cs.takeWhile Text.isBlank, (value (cs.dropWhile Text.isBlank)).1), (value (cs.dropWhile Text.isBlank)).2)
    else (none, c :: cs)

def writtenAssigned : Option (List Char × Value) → List Char
  | none => []
  | some (space, v) => '=' :: (space ++ v.written)

structure Round where
  gap : List Char
  name : List Char
  space : List Char
  value : Option (List Char × Value)
  deriving DecidableEq

namespace Round

def written (r : Round) : List Char := r.gap ++ (r.name ++ (r.space ++ writtenAssigned r.value))

/-- The attribute that a round declares, unless its name is empty. -/
def declares (r : Round) : List Declared := AttrScan.declare (r.name.map Char.toLower) r.value.isSome

/-- In a round that begins at the offset `i`, where its quoted value begins and ends. -/
def quoted? (i : Nat) (r : Round) : Option (Nat × Nat) :=
  match r.value with
  | some (space, .quoted ..) => some (i + size (r.gap ++ (r.name ++ (r.space ++ '=' :: space))), i + size r.written)
  | _ => none

end Round

/-- Where no round begins: at the end of the source or of the tag. -/
def isEnd : List Char → Bool
  | [] => true
  | c :: _ => c = '>'

def roundAt (gap s : List Char) : Round × List Char :=
  let behind := s.dropWhile inName
  let value := assigned (behind.dropWhile Text.isBlank)
  (⟨gap, s.takeWhile inName, behind.takeWhile Text.isBlank, value.1⟩, value.2)

def round? (s : List Char) : Option (Round × List Char) :=
  if isEnd (s.dropWhile isGap) then none else some (roundAt (s.takeWhile isGap) (s.dropWhile isGap))

/-- The rounds in a text, and what is left where they stop. -/
inductive Reads : List Char → List Round → List Char → Prop
  | stop {s : List Char} (h : round? s = none) : Reads s [] (s.dropWhile isGap)
  | next {s rest left : List Char} {r : Round} {rounds : List Round} (h : round? s = some (r, rest))
    (later : Reads rest rounds left) : Reads s (r :: rounds) left

/-! ### Nothing is lost, and each round takes something -/

theorem written_value (s : List Char) : (value s).1.written ++ (value s).2 = s := by
  cases s with
  | nil => rfl
  | cons c cs =>
    by_cases hquote : isQuote c
    · simp only [value, if_pos hquote, Value.written, List.cons_append, List.append_assoc, List.take_append_drop,
        List.takeWhile_append_dropWhile]
    · simp only [value, if_neg hquote, Value.written, List.takeWhile_append_dropWhile]

theorem written_assigned (s : List Char) : writtenAssigned (assigned s).1 ++ (assigned s).2 = s := by
  cases s with
  | nil => rfl
  | cons c cs =>
    by_cases hequals : c = '='
    · subst hequals
      simp only [assigned, if_pos, writtenAssigned, List.cons_append, List.append_assoc, written_value,
        List.takeWhile_append_dropWhile]
    · rw [assigned, if_neg hequals]
      rfl

theorem written_roundAt (gap s : List Char) : (roundAt gap s).1.written ++ (roundAt gap s).2 = gap ++ s := by
  simp only [roundAt, Round.written, List.append_assoc, written_assigned, List.takeWhile_append_dropWhile]

theorem round?_eq_some_iff {s rest : List Char} {r : Round} : round? s = some (r, rest) ↔
    isEnd (s.dropWhile isGap) = false ∧ roundAt (s.takeWhile isGap) (s.dropWhile isGap) = (r, rest) := by
  rw [round?, Option.ite_none_left_eq_some, Option.some.injEq, Bool.not_eq_true]

theorem round?_eq_none_iff {s : List Char} : round? s = none ↔ isEnd (s.dropWhile isGap) = true := by
  rw [round?, ite_eq_left_iff]
  simp

theorem written_round {s rest : List Char} {r : Round} (h : round? s = some (r, rest)) : s = r.written ++ rest := by
  obtain ⟨-, hr⟩ := round?_eq_some_iff.1 h
  have parts := written_roundAt (s.takeWhile isGap) (s.dropWhile isGap)
  rw [hr, List.takeWhile_append_dropWhile] at parts
  exact parts.symm

example : round? " A = 'x>'/>".toList =
    some (⟨[' '], ['A'], [' '], some ([' '], .quoted '\'' ['x', '>'] ['\''])⟩, ['/', '>']) := by decide +kernel

theorem first_cases {s cs : List Char} {c : Char} (hs : s.dropWhile isGap = c :: cs) (hend : isEnd (c :: cs) = false) :
    c = '=' ∨ inName c := by
  have notGap : isGap c = false := head?_dropWhile c (Option.mem_def.2 (congrArg List.head? hs))
  rw [isGap, Bool.or_eq_false_iff] at notGap
  have notClose : c ≠ '>' := of_decide_eq_false hend
  by_cases hequals : c = '='
  · exact .inl hequals
  · right
    simp [inName, notGap.1, of_decide_eq_false notGap.2, hequals, notClose]

theorem value_of_name_nil {s rest : List Char} {r : Round} (h : round? s = some (r, rest)) (hname : r.name = []) :
    r.value.isSome := by
  obtain ⟨hend, hr⟩ := round?_eq_some_iff.1 h
  cases hs : s.dropWhile isGap with
  | nil => simp [hs, isEnd] at hend
  | cons c cs =>
    rw [hs] at hend hr
    obtain ⟨rfl, rfl⟩ := Prod.mk.inj hr
    rcases first_cases hs hend with rfl | hc
    · rfl
    · simp [hc] at hname

theorem length_of_round? {s rest : List Char} {r : Round} (h : round? s = some (r, rest)) : rest.length < s.length := by
  have parts := congrArg List.length (written_round h)
  rw [List.length_append] at parts
  suffices taken : 0 < r.written.length by omega
  cases hname : r.name with
  | nil =>
    obtain ⟨v, hv⟩ := Option.isSome_iff_exists.1 (value_of_name_nil h hname)
    simp only [Round.written, hname, hv, writtenAssigned, List.length_append, List.length_cons]
    omega
  | cons c cs =>
    simp only [Round.written, hname, List.length_append, List.length_cons]
    omega

/-- Read to the end, a text has at most as many rounds as characters. -/
theorem exists_reads (s : List Char) : ∃ rounds left, Reads s rounds left ∧ rounds.length ≤ s.length := by
  induction hn : s.length using Nat.strong_induction_on generalizing s with
  | _ n ih =>
    subst hn
    cases hround : round? s with
    | none => exact ⟨[], _, .stop hround, Nat.zero_le _⟩
    | some found =>
      obtain ⟨r, rest⟩ := found
      have shorter := length_of_round? hround
      obtain ⟨rounds, left, later, few⟩ := ih rest.length shorter rest rfl
      refine ⟨r :: rounds, left, .next hround later, ?_⟩
      rw [List.length_cons]
      omega

namespace Reads

variable {s left : List Char} {rounds : List Round}

theorem unique (h : Reads s rounds left) {rounds' : List Round} {left' : List Char} (h' : Reads s rounds' left') :
    rounds' = rounds ∧ left' = left := by
  induction h generalizing rounds' with
  | stop hstop =>
    cases h' with
    | stop => exact ⟨rfl, rfl⟩
    | next hround => rw [hstop] at hround; cases hround
  | next hround later ih =>
    cases h' with
    | stop hstop => rw [hround] at hstop; cases hstop
    | next hround' later' =>
      rw [hround] at hround'
      cases hround'
      obtain ⟨rfl, rfl⟩ := ih later'
      exact ⟨rfl, rfl⟩

/-- The rounds are what the text begins with. Between them and what is left stands one more gap. -/
theorem written (h : Reads s rounds left) : ∃ gap, gap.all isGap ∧ s = rounds.flatMap Round.written ++ (gap ++ left) := by
  induction h with
  | @stop s _ => exact ⟨s.takeWhile isGap, List.all_takeWhile, List.takeWhile_append_dropWhile.symm⟩
  | next hround later ih =>
    obtain ⟨gap, hgap, hrest⟩ := ih
    refine ⟨gap, hgap, ?_⟩
    rw [written_round hround, List.flatMap_cons, List.append_assoc, ← hrest]

theorem isEnd_left (h : Reads s rounds left) : isEnd left := by
  induction h with
  | stop hstop => exact round?_eq_none_iff.1 hstop
  | next _ _ ih => exact ih

end Reads

/-! ### The scan goes through the rounds -/

theorem scan_cons_silent {s s' : AttrScan} {c : Char} (h : s.step c = ([], some s')) (i : Nat) (cs : List Char) :
    scan s i (c :: cs) = scan s' (i + c.utf8Size) cs := by
  rw [scan, h]
  rfl

theorem scan_dropWhile {s : AttrScan} {p : Char → Bool} (stays : ∀ c, p c → s.step c = ([], some s)) (i : Nat)
    (cs : List Char) : scan s i cs = scan s (i + size (cs.takeWhile p)) (cs.dropWhile p) := by
  induction cs generalizing i with
  | nil => rfl
  | cons c cs ih =>
    by_cases hc : p c
    · rw [scan_cons_silent (stays c hc), ih, List.takeWhile_cons_of_pos hc, List.dropWhile_cons_of_pos hc, size_cons,
        Nat.add_assoc]
    · rw [List.takeWhile_cons_of_neg hc, List.dropWhile_cons_of_neg hc]
      rfl

/-- Attributes, and where the scan stops, with some declared before. -/
def declaring (new : List Declared) (x : List Declared × Option Nat) : List Declared × Option Nat := (new ++ x.1, x.2)

theorem scan_cons_declares {s s' : AttrScan} {c : Char} {new : List Declared} (h : s.step c = (new, some s')) (i : Nat)
    (cs : List Char) : scan s i (c :: cs) = declaring new (scan s' (i + c.utf8Size) cs) := by
  rw [scan, h]
  rfl

/-- Where a state completes what it would at the end, the scan goes on as between two attributes. -/
theorem scan_completes {s : AttrScan} {cs : List Char}
    (step : ∀ c ∈ cs.head?, s.step c = (s.finish, AttrScan.between? c)) (i : Nat) :
    scan s i cs = declaring s.finish (scan .between i cs) := by
  cases cs with
  | nil =>
    rw [scan, scan, declaring, AttrScan.finish.eq_1, List.append_nil]
  | cons c cs =>
    have between : AttrScan.between.step c = ([], AttrScan.between? c) := rfl
    rw [scan, scan, step c rfl, between]
    cases AttrScan.between? c <;> simp [declaring]

theorem scan_bare (n : List Char) (i : Nat) (cs : List Char) : scan (.unquoted n) i cs =
    declaring (AttrScan.declare n true) (scan .between (i + size (cs.takeWhile inBare)) (cs.dropWhile inBare)) := by
  have stays : ∀ c, inBare c → (AttrScan.unquoted n).step c = ([], some (.unquoted n)) := by
    intro c hc
    simp_all [inBare, AttrScan.step]
  rw [scan_dropWhile stays]
  apply scan_completes
  intro c hc
  have ends := head?_dropWhile c hc
  by_cases hblank : Text.isBlank c
  · simp [AttrScan.step, AttrScan.between?, AttrScan.finish, hblank]
  · have close : c = '>' := by simpa [inBare, hblank] using ends
    subst close
    rfl

theorem scan_quoted (n : List Char) (quote : Char) (i : Nat) (cs : List Char) : scan (.quoted n quote) i cs =
    declaring (AttrScan.declare n true) (scan .between
      (i + size (cs.takeWhile (· ≠ quote) ++ (cs.dropWhile (· ≠ quote)).take 1)) ((cs.dropWhile (· ≠ quote)).drop 1)) := by
  have stays : ∀ c, decide (c ≠ quote) → (AttrScan.quoted n quote).step c = ([], some (.quoted n quote)) := by
    intro c hc
    rw [AttrScan.step, if_neg (of_decide_eq_true hc)]
  rw [scan_dropWhile stays, size_append, ← Nat.add_assoc]
  cases hbehind : cs.dropWhile (· ≠ quote) with
  | nil => simp [scan, declaring, AttrScan.finish]
  | cons c rest =>
    have close : c = quote := by simpa using head?_dropWhile c (Option.mem_def.2 (congrArg List.head? hbehind))
    have step : (AttrScan.quoted n quote).step c = (AttrScan.declare n true, some .between) := if_pos close
    have one : size [c] = c.utf8Size := by rw [size_cons]; rfl
    rw [scan_cons_declares step, List.take_succ_cons, List.take_zero, one]
    rfl

/-- Where a value begins, it is read as far as it goes. -/
theorem scan_value {s : List Char} (h : ∀ c ∈ s.head?, Text.isBlank c = false) (n : List Char) (i : Nat) :
    scan (.beforeValue n) i s =
      declaring (AttrScan.declare n true) (scan .between (i + size (value s).1.written) (value s).2) := by
  cases s with
  | nil => simp [scan, value, declaring, AttrScan.finish]
  | cons c cs =>
    have hblank : Text.isBlank c = false := h c rfl
    by_cases hquote : isQuote c
    · have step : (AttrScan.beforeValue n).step c = ([], some (.quoted n c)) := by
        simp_all [AttrScan.step, isQuote]
      rw [scan_cons_silent step, scan_quoted, value, if_pos hquote, Value.written, size_cons, Nat.add_assoc]
    · rw [value, if_neg hquote, Value.written, ← scan_bare]
      by_cases hclose : c = '>'
      · subst hclose
        rfl
      · have step : (AttrScan.beforeValue n).step c = (AttrScan.unquoted n).step c := by
          simp_all [AttrScan.step, isQuote]
        rw [scan, scan, step]

theorem scan_assigned {s : List Char} (h : ∀ c ∈ s.head?, Text.isBlank c = false) (n : List Char) (i : Nat) :
    scan (.afterName n) i s = declaring (AttrScan.declare n (assigned s).1.isSome)
      (scan .between (i + size (writtenAssigned (assigned s).1)) (assigned s).2) := by
  cases s with
  | nil => exact scan_completes (by simp) i
  | cons c cs =>
    have hblank : Text.isBlank c = false := h c rfl
    by_cases hequals : c = '='
    · subst hequals
      have stays : ∀ c, Text.isBlank c → (AttrScan.beforeValue n).step c = ([], some (.beforeValue n)) := by
        intro c hc
        rw [AttrScan.step, if_pos hc]
      have step : (AttrScan.afterName n).step '=' = ([], some (.beforeValue n)) := rfl
      rw [scan_cons_silent step, scan_dropWhile stays, scan_value head?_dropWhile]
      simp only [assigned, if_pos, writtenAssigned, Option.isSome_some, size_cons, size_append, Nat.add_assoc]
    · rw [assigned, if_neg hequals]
      apply scan_completes
      rintro _ ⟨⟩
      simp [AttrScan.step, AttrScan.finish, hblank, hequals]

theorem scan_name (n : List Char) (i : Nat) (cs : List Char) : scan (.name n) i cs =
    scan (.afterName (n ++ (cs.takeWhile inName).map Char.toLower)) (i + size (cs.takeWhile inName)) (cs.dropWhile inName) := by
  induction cs generalizing n i with
  | nil => simp [scan, AttrScan.finish]
  | cons c cs ih =>
    by_cases hname : inName c
    · have step : (AttrScan.name n).step c = ([], some (.name (n ++ [c.toLower]))) := by
        simp_all [inName, AttrScan.step]
      rw [scan_cons_silent step, ih, List.takeWhile_cons_of_pos hname, List.dropWhile_cons_of_pos hname, size_cons,
        List.map_cons, List.append_assoc, Nat.add_assoc]
      rfl
    · have step : (AttrScan.name n).step c = (AttrScan.afterName n).step c := by
        simp only [inName, Bool.not_eq_true', Bool.not_eq_false, Bool.or_eq_true, decide_eq_true_eq] at hname
        rcases hname with ((hblank | rfl) | rfl) | rfl
        · simp [AttrScan.step, hblank]
        all_goals rfl
      rw [List.takeWhile_cons_of_neg hname, List.dropWhile_cons_of_neg hname, List.map_nil, List.append_nil, scan, scan, step]
      rfl

theorem step_gap {c : Char} (h : isGap c) : AttrScan.between.step c = ([], some .between) :=
  congrArg (Prod.mk []) (if_pos h)

/-- A round declares what the scan declares on its way through it. -/
theorem scan_round {s rest : List Char} {r : Round} (h : round? s = some (r, rest)) (i : Nat) :
    scan .between i s = declaring r.declares (scan .between (i + size r.written) rest) := by
  obtain ⟨hend, hr⟩ := round?_eq_some_iff.1 h
  have opens : ∀ j, scan .between j (s.dropWhile isGap) = scan (.name []) j (s.dropWhile isGap) := by
    intro j
    cases hs : s.dropWhile isGap with
    | nil => rfl
    | cons c cs =>
      rw [hs] at hend
      have step : AttrScan.between.step c = (AttrScan.name []).step c := by
        rcases first_cases hs hend with rfl | hc
        · rfl
        · simp_all [inName, AttrScan.step, AttrScan.between?]
      rw [scan, scan, step]
  have skips : ∀ n c, Text.isBlank c → (AttrScan.afterName n).step c = ([], some (.afterName n)) := by
    intro n c hc
    rw [AttrScan.step, if_pos hc]
  obtain ⟨rfl, rfl⟩ := Prod.mk.inj hr
  rw [scan_dropWhile fun _ => step_gap, opens, scan_name, scan_dropWhile (skips _), scan_assigned head?_dropWhile]
  simp only [Round.declares, Round.written, List.nil_append, size_append, Nat.add_assoc]

theorem scan_end {s : List Char} (h : round? s = none) (i : Nat) :
    scan .between i s = ([], if s.dropWhile isGap = [] then none else some (i + size (s.takeWhile isGap) + 1)) := by
  have hend := round?_eq_none_iff.1 h
  rw [scan_dropWhile fun _ => step_gap]
  cases hs : s.dropWhile isGap with
  | nil => rfl
  | cons c cs =>
    rw [hs] at hend
    obtain rfl : c = '>' := of_decide_eq_true hend
    rfl

namespace Reads

variable {s left : List Char} {rounds : List Round}

theorem suffix (h : Reads s rounds left) : left <:+ s := by
  obtain ⟨gap, -, hs⟩ := h.written
  exact ⟨rounds.flatMap Round.written ++ gap, by rw [hs, List.append_assoc]⟩

/-- What the rounds declare and where they stop is what the scan finds. -/
theorem scan_eq (h : Reads s rounds left) (i : Nat) : scan .between i s =
    (rounds.flatMap Round.declares, if left = [] then none else some (i + offsetOf s left + 1)) := by
  induction h generalizing i with
  | @stop s hstop =>
    have gap := offsetOf_append (s.takeWhile isGap) (s.dropWhile isGap)
    rw [List.takeWhile_append_dropWhile] at gap
    rw [scan_end hstop, gap]
    rfl
  | @next s rest left r rounds hround later ih =>
    obtain rfl := written_round hround
    have place := offsetOf_trans (List.suffix_append r.written rest) later.suffix
    rw [offsetOf_append] at place
    rw [scan_round hround, ih, place, declaring, List.flatMap_cons, ← Nat.add_assoc]

end Reads

end Stencil.Markup.Rounds
