import Stencil.Proofs.Directive.Notation
import Stencil.Text.Utf8

/-! Directive values read with a cursor that counts octets. What is left at the cursor is a text only if no character is
cut there, so every reading could fail by cutting one. None does, and each finds what the grammar says. -/

namespace Stencil
namespace Octets

def octets (s : List Char) : List UInt8 := Text.Utf8.encode (String.ofList s)

def size (s : List Char) : Nat := (octets s).length

/-- A text in two parts, the first of `n` octets, unless that would cut a character or the text has less of them. -/
def cut? : List Char → Nat → Option (List Char × List Char)
  | s, 0 => some ([], s)
  | [], _ + 1 => none
  | c :: cs, n + 1 =>
    if c.utf8Size ≤ n + 1 then (cut? cs (n + 1 - c.utf8Size)).map fun (a, b) => (c :: a, b) else none

inductive Fault
  /-- The value is not what is read. -/
  | refused
  /-- The cursor is where no text begins. -/
  | cut
  deriving DecidableEq

/-- Readings move a cursor, which counts the octets before it. -/
abbrev Reading := StateT Nat (Except Fault)

section

variable (text : List Char)

def rest : Reading (List Char) := fun n =>
  match cut? text n with
  | some (_, s) => .ok (s, n)
  | none => .error .cut

def eat (word : List Char) : Reading Bool := do
  let s ← rest text
  if word.isPrefixOf s then
    modify (· + size word)
    return true
  else return false

def expect (word : List Char) : Reading Unit := do
  if ← eat text word then return () else throw .refused

def skipBlanks : Reading Unit := do
  let s ← rest text
  modify (· + (size s - size (Text.trimStart s)))

def isNameOctet (b : UInt8) : Bool :=
  (65 ≤ b && b ≤ 90) || (97 ≤ b && b ≤ 122) || (48 ≤ b && b ≤ 57) || b = 95

def identifier : Reading String := do
  let s ← rest text
  let n := ((octets s).takeWhile isNameOctet).length
  if n = 0 then throw .refused
  match cut? s n with
  | some (name, _) =>
    modify (· + n)
    return String.ofList name
  | none => throw .cut

/-- Segments, of which there are at most `fuel`, since each takes an octet of the text. -/
def segments (calls : Bool) : Nat → Reading (List Segment)
  | 0 => throw .cut
  | fuel + 1 => do
    if ← eat text ['.'] then
      let name ← identifier text
      if ← eat text ['(', ')'] then
        if calls then return [.call name] else throw .refused
      else return .property name :: (← segments calls fuel)
    else return []

def path (calls : Bool) : Reading Path := do
  expect text ['$', '\x7b']
  let root ← identifier text
  let segments ← segments text calls (size text)
  expect text ['\x7d']
  return ⟨root, segments⟩

def finish (limit : PathLimit) (p : Path) : Reading Unit := do
  if (← get) < size text || !limit.allows p then throw .refused

end

def readPath (limit : PathLimit) (value : String) : Except Fault Path :=
  let text := value.toList
  let reading : Reading Path := do
    let p ← path text false
    finish text limit p
    return p
  reading.run' 0

def readIteration (limit : PathLimit) (value : String) : Except Fault Iteration :=
  let text := value.toList
  let reading : Reading Iteration := do
    skipBlanks text
    let variableName ← identifier text
    expect text [':']
    skipBlanks text
    let source ← path text true
    finish text limit source
    return ⟨variableName, source⟩
  reading.run' 0

def readCondition (limit : PathLimit) (value : String) : Except Fault Condition :=
  let lower := value.toList.map Char.toLower
  if lower = "true".toList then .ok (.literal true)
  else if lower = "false".toList then .ok (.literal false)
  else (readPath limit value).map .path

/-! ### Where texts are cut -/

theorem octets_eq (s : List Char) : octets s = s.flatMap String.utf8EncodeChar := by
  rw [octets, Text.Utf8.encode_eq, String.toList_ofList]

theorem size_append (s t : List Char) : size (s ++ t) = size s + size t := by
  simp [size, octets_eq]

theorem size_cons (c : Char) (s : List Char) : size (c :: s) = c.utf8Size + size s := by
  simp [size, octets_eq]

theorem length_le_size (s : List Char) : s.length ≤ size s := by
  induction s with
  | nil => exact Nat.zero_le _
  | cons c s ih =>
    have one := c.utf8Size_pos
    rw [size_cons, List.length_cons]
    omega

theorem cut?_append (s t : List Char) : cut? (s ++ t) (size s) = some (s, t) := by
  induction s with
  | nil => cases t <;> rfl
  | cons c s ih =>
    obtain ⟨n, hn⟩ : ∃ n, c.utf8Size + size s = n + 1 := ⟨c.utf8Size + size s - 1, by have := c.utf8Size_pos; omega⟩
    have left : n + 1 - c.utf8Size = size s := by omega
    rw [size_cons, List.cons_append, hn, cut?, if_pos (by omega), left, ih]
    rfl

theorem isNameOctet_iff {b : UInt8} : isNameOctet b = true ↔
    (65 ≤ b.toNat ∧ b.toNat ≤ 90) ∨ (97 ≤ b.toNat ∧ b.toNat ≤ 122) ∨ (48 ≤ b.toNat ∧ b.toNat ≤ 57) ∨ b.toNat = 95 := by
  simp only [isNameOctet, Bool.or_eq_true, Bool.and_eq_true, decide_eq_true_eq, UInt8.le_iff_toNat_le, or_assoc,
    ← UInt8.toNat_inj]
  rfl

theorem isWordChar_iff {c : Char} : IsWordChar c ↔ (65 ≤ c.toNat ∧ c.toNat ≤ 90) ∨
    (97 ≤ c.toNat ∧ c.toNat ≤ 122) ∨ (48 ≤ c.toNat ∧ c.toNat ≤ 57) ∨ c.toNat = 95 := by
  have underscore : c = '_' ↔ c.toNat = 95 :=
    ⟨by rintro rfl; rfl, fun h => Char.ext (UInt32.toNat_inj.1 h)⟩
  rw [IsWordChar, underscore]
  exact Iff.rfl

/-- The octets of a character outside of ASCII begin with one that is outside of ASCII. -/
theorem octets_large {c : Char} (h : 127 < c.toNat) : ∃ b bs, String.utf8EncodeChar c = b :: bs ∧ 127 < b.toNat := by
  have h1 : ¬ c.val.toNat ≤ 127 := Nat.not_le.2 h
  unfold String.utf8EncodeChar
  dsimp only
  rw [if_neg h1]
  split
  · refine ⟨_, _, rfl, ?_⟩
    rw [UInt8.toNat_ofNat']
    omega
  · split <;> refine ⟨_, _, rfl, ?_⟩ <;> rw [UInt8.toNat_ofNat'] <;> omega

/-- The first octet of a character is one of a name exactly if the character is, and then the only one. -/
theorem octets_first (c : Char) : ∃ b bs, String.utf8EncodeChar c = b :: bs ∧
    isNameOctet b = Grammar.isNameChar c ∧ (Grammar.isNameChar c → bs = []) := by
  have iffs := fun b => (Bool.eq_iff_iff.trans (iff_congr (isNameOctet_iff (b := b))
    (Grammar.isNameChar_iff.trans (isWordChar_iff (c := c))))).2
  by_cases h : c.toNat ≤ 127
  · refine ⟨UInt8.ofNat c.toNat, [], if_pos h, iffs _ ?_, fun _ => rfl⟩
    have value : (UInt8.ofNat c.toNat).toNat = c.toNat := by
      rw [UInt8.toNat_ofNat']
      exact Nat.mod_eq_of_lt (by omega)
    rw [value]
  · obtain ⟨b, bs, henc, hb⟩ := octets_large (Nat.not_le.1 h)
    refine ⟨b, bs, henc, iffs b (by omega), fun hname => ?_⟩
    rw [Grammar.isNameChar_iff, isWordChar_iff] at hname
    omega

/-- The octets of a text go on like those of a name as far as its characters do. -/
theorem takeWhile_octets (s : List Char) :
    (octets s).takeWhile isNameOctet = octets (s.takeWhile Grammar.isNameChar) := by
  induction s with
  | nil => rfl
  | cons c s ih =>
    obtain ⟨b, bs, henc, hsame, hone⟩ := octets_first c
    have split : octets (c :: s) = b :: (bs ++ octets s) := by simp [octets_eq, henc]
    rw [split, List.takeWhile_cons, List.takeWhile_cons, hsame]
    cases hname : Grammar.isNameChar c with
    | false => rfl
    | true =>
      obtain rfl := hone hname
      have again : octets (c :: s.takeWhile Grammar.isNameChar) = b :: octets (s.takeWhile Grammar.isNameChar) := by
        simp [octets_eq, henc]
      simp only [List.nil_append, if_true, ih, again]

/-! ### Readings of what follows a part of a text -/

theorem bind_at {α β : Type} (r : Reading α) (k : α → Reading β) (n : Nat) :
    (r >>= k) n = match r n with
      | .ok (a, m) => k a m
      | .error e => .error e := by
  change (r n >>= fun x => k x.1 x.2) = _
  cases r n <;> rfl

section

variable {text before s : List Char} (h : text = before ++ s)

include h

theorem rest_at : rest text (size before) = .ok (s, size before) := by
  rw [h, rest, cut?_append]

theorem eat_at (word : List Char) : eat text word (size before) =
    match Grammar.after? word s with
    | some _ => .ok (true, size (before ++ word))
    | none => .ok (false, size before) := by
  rw [eat, bind_at, rest_at h]
  dsimp only
  cases hs : Grammar.after? word s with
  | some r =>
    obtain rfl := Grammar.after?_eq_some_iff.1 hs
    rw [if_pos (List.isPrefixOf_iff_prefix.2 (List.prefix_append word r)), size_append]
    rfl
  | none =>
    have absent : ¬ word.isPrefixOf s = true := by
      rw [List.isPrefixOf_iff_prefix]
      rintro ⟨r, rfl⟩
      rw [Grammar.after?_eq_some_iff.2 rfl] at hs
      cases hs
    rw [if_neg absent]
    rfl

theorem expect_at (word : List Char) : expect text word (size before) =
    match Grammar.after? word s with
    | some _ => .ok ((), size (before ++ word))
    | none => .error .refused := by
  rw [expect, bind_at, eat_at h]
  cases Grammar.after? word s <;> rfl

theorem skipBlanks_at : skipBlanks text (size before) = .ok ((), size (before ++ s.takeWhile Text.isBlank)) := by
  have parts : size s = size (s.takeWhile Text.isBlank) + size (Text.trimStart s) := by
    rw [← size_append]
    exact congrArg size List.takeWhile_append_dropWhile.symm
  rw [skipBlanks, bind_at, rest_at h]
  dsimp only
  rw [parts, Nat.add_sub_cancel, size_append]
  rfl

theorem identifier_at : identifier text (size before) =
    match Grammar.name? s with
    | some (n, _) => .ok (n, size (before ++ n.toList))
    | none => .error .refused := by
  have parts : s.takeWhile Grammar.isNameChar ++ s.dropWhile Grammar.isNameChar = s := List.takeWhile_append_dropWhile
  rw [identifier, bind_at, rest_at h]
  dsimp only
  rw [takeWhile_octets, ← size, Grammar.name?]
  cases hname : s.takeWhile Grammar.isNameChar with
  | nil => rfl
  | cons c cs =>
    have pos : size (c :: cs) ≠ 0 := by
      have one := c.utf8Size_pos
      rw [size_cons]
      omega
    have cut : cut? s (size (c :: cs)) = some (c :: cs, s.dropWhile Grammar.isNameChar) := by
      rw [hname] at parts
      conv_lhs => rw [← parts]
      exact cut?_append _ _
    rw [if_neg pos, cut]
    simp only [String.toList_ofList, size_append]
    rfl

/-- The segments at the cursor, which cannot be more than the characters that are left. -/
theorem segments_at (calls : Bool) {fuel : Nat} (hfuel : s.length < fuel) : segments text calls fuel (size before) =
    match Grammar.segments? calls s with
    | some (segments, _) => .ok (segments, size (before ++ Grammar.written segments))
    | none => .error .refused := by
  induction fuel generalizing before s with
  | zero => omega
  | succ fuel ih =>
    rw [segments, bind_at, eat_at h]
    by_cases hdot : ∃ r, s = '.' :: r
    · obtain ⟨r, rfl⟩ := hdot
      have hname : text = before ++ ['.'] ++ r := by simpa using h
      rw [show Grammar.after? ['.'] ('.' :: r) = some r from rfl]
      dsimp only
      rw [if_pos rfl, bind_at, identifier_at hname]
      cases hn : Grammar.name? r with
      | none =>
        have nothing : Grammar.segments? calls ('.' :: r) = none := by
          rw [Grammar.segments?.eq_1]
          split
          · rfl
          · next hsome => rw [hn] at hsome; cases hsome
        rw [nothing]
      | some found =>
        obtain ⟨n, r'⟩ := found
        obtain ⟨rfl, -, -⟩ := Grammar.name?_eq_some_iff.1 hn
        have hrest : text = before ++ ['.'] ++ n.toList ++ r' := by simpa using h
        rw [Grammar.segments?_dot hn]
        dsimp only
        rw [bind_at, eat_at hrest]
        cases hcall : Grammar.after? ['(', ')'] r' with
        | some r'' =>
          cases calls with
          | false => rfl
          | true =>
            have place : before ++ Grammar.written [.call n] = before ++ ['.'] ++ n.toList ++ ['(', ')'] := by
              rw [Grammar.written_call]
              simp [Grammar.written]
            simp only [if_true, place]
            rfl
        | none =>
          have later := ih hrest (by simp at hfuel; omega)
          dsimp only
          rw [if_neg (by decide), bind_at, later]
          cases Grammar.segments? calls r' with
          | none => rfl
          | some found =>
            have place : before ++ Grammar.written (.property n :: found.1) =
                before ++ ['.'] ++ n.toList ++ Grammar.written found.1 := by
              simp [Grammar.written_property]
            simp only [Option.map_some, place]
            rfl
    · have noDot : Grammar.after? ['.'] s = none := by
        by_contra hne
        obtain ⟨r, hr⟩ := Option.ne_none_iff_exists'.1 hne
        exact hdot ⟨r, Grammar.after?_eq_some_iff.1 hr⟩
      rw [noDot, Grammar.segments?.eq_2 calls s fun r hr => hdot ⟨r, hr⟩]
      simp only [Grammar.written, List.flatMap_nil, List.append_nil]
      rfl

theorem finish_at (limit : PathLimit) (p : Path) : finish text limit p (size before) =
    if s = [] ∧ limit.allows p then .ok ((), size before) else .error .refused := by
  have left : size before < size text ↔ s ≠ [] := by
    rw [h, size_append]
    cases s with
    | nil => simp [size, octets_eq]
    | cons c s =>
      have one := c.utf8Size_pos
      rw [size_cons]
      simp
      omega
  change (if size before < size text || !limit.allows p then throw .refused else pure () : Reading Unit) (size before) = _
  by_cases hs : s = []
  · cases hp : limit.allows p <;> simp [left, hs] <;> rfl
  · simp [left, hs]
    rfl

theorem path_at (calls : Bool) (limit : PathLimit) :
    (path text calls >>= fun p => finish text limit p >>= fun _ => pure p) (size before) =
      match (Grammar.path? calls s).filter limit.allows with
      | some p => .ok (p, size text)
      | none => .error .refused := by
  rw [path, Grammar.path?]
  simp only [bind_assoc, pure_bind]
  rw [bind_at, expect_at h]
  cases hopen : Grammar.after? ['$', '\x7b'] s with
  | none => rfl
  | some r =>
    obtain rfl := Grammar.after?_eq_some_iff.1 hopen
    have hroot : text = before ++ ['$', '\x7b'] ++ r := by simpa using h
    dsimp only
    rw [bind_at, identifier_at hroot]
    simp only [Option.bind_eq_bind, Option.bind_some]
    cases hname : Grammar.name? r with
    | none => rfl
    | some found =>
      obtain ⟨root, r⟩ := found
      obtain ⟨rfl, -, -⟩ := Grammar.name?_eq_some_iff.1 hname
      have hsegments : text = before ++ ['$', '\x7b'] ++ root.toList ++ r := by simpa using h
      have enough : r.length < size text := by
        have length := length_le_size text
        have parts := congrArg List.length h
        simp only [List.length_append, List.length_cons] at parts
        omega
      dsimp only
      rw [bind_at, segments_at hsegments calls enough]
      simp only [Option.bind_some]
      cases hread : Grammar.segments? calls r with
      | none => rfl
      | some found =>
        obtain ⟨segments, r⟩ := found
        obtain ⟨rfl, -⟩ := Grammar.segments?_sound hread
        have hclose : text = before ++ ['$', '\x7b'] ++ root.toList ++ Grammar.written segments ++ r := by simpa using h
        dsimp only
        rw [bind_at, expect_at hclose]
        simp only [Option.bind_some]
        cases hlast : Grammar.after? ['\x7d'] r with
        | none =>
          have notClosed : r ≠ ['\x7d'] := by rintro rfl; cases hlast
          rw [if_neg notClosed]
          rfl
        | some r' =>
          obtain rfl := Grammar.after?_eq_some_iff.1 hlast
          have hend : text = before ++ ['$', '\x7b'] ++ root.toList ++ Grammar.written segments ++ ['\x7d'] ++ r' := by
            simpa using h
          dsimp only
          rw [bind_at, finish_at hend]
          by_cases hr : r' = []
          · subst hr
            rw [List.append_nil] at hend
            rw [List.append_nil, if_pos rfl, ← hend]
            cases hallows : limit.allows ⟨root, segments⟩ with
            | true =>
              rw [if_pos ⟨rfl, rfl⟩, Option.filter_some, if_pos hallows]
              rfl
            | false =>
              rw [if_neg (by simp), Option.filter_some, if_neg (by simp [hallows])]
          · rw [if_neg fun hp => hr hp.1, if_neg (by simpa using hr)]
            rfl

end

/-! ### The three readings -/

/-- Octets and characters read the same paths, and no slice cuts a character. -/
theorem readPath_eq (limit : PathLimit) (value : String) :
    readPath limit value = (Path.read? limit value).elim (.error .refused) .ok := by
  have reading : readPath limit value =
      ((path value.toList false >>= fun p => finish value.toList limit p >>= fun _ => pure p) (size [])).map Prod.fst := by
    rfl
  have whole : value.toList = [] ++ value.toList := rfl
  rw [reading, path_at whole, Path.read?]
  cases (Grammar.path? false value.toList).filter limit.allows <;> rfl

/-- The path that ends an iteration, with the variable before it. -/
theorem source_at {text before s : List Char} (h : text = before ++ s) (limit : PathLimit) (v : String) :
    (path text true >>= fun p => finish text limit p >>= fun _ => pure (Iteration.mk v p)) (size before) =
      match (Grammar.path? true s).filter limit.allows with
      | some p => .ok (⟨v, p⟩, size text)
      | none => .error .refused := by
  have split : (path text true >>= fun p => finish text limit p >>= fun _ => pure (Iteration.mk v p)) =
      (path text true >>= fun p => finish text limit p >>= fun _ => pure p) >>= fun p => pure (Iteration.mk v p) := by
    simp
  rw [split, bind_at, path_at h]
  cases (Grammar.path? true s).filter limit.allows <;> rfl

theorem readIteration_eq (limit : PathLimit) (value : String) :
    readIteration limit value = (Iteration.read? limit value).elim (.error .refused) .ok := by
  generalize htext : value.toList = text
  have reading : readIteration limit value = ((skipBlanks text >>= fun _ => identifier text >>= fun v =>
      expect text [':'] >>= fun _ => skipBlanks text >>= fun _ => path text true >>= fun p =>
      finish text limit p >>= fun _ => pure (Iteration.mk v p)) (size [])).map Prod.fst := by
    rw [← htext]
    rfl
  have drop : ∀ s : List Char, s.takeWhile Text.isBlank ++ Text.trimStart s = s :=
    fun s => List.takeWhile_append_dropWhile
  have hname : text = [] ++ text.takeWhile Text.isBlank ++ Text.trimStart text := by simp [drop]
  rw [reading, bind_at, skipBlanks_at (List.nil_append text).symm, Iteration.read?, htext]
  dsimp only
  rw [bind_at, identifier_at hname]
  cases hn : Grammar.name? (Text.trimStart text) with
  | none => rfl
  | some found =>
    obtain ⟨v, r⟩ := found
    obtain ⟨hr, -, -⟩ := Grammar.name?_eq_some_iff.1 hn
    have hcolon : text = [] ++ text.takeWhile Text.isBlank ++ v.toList ++ r := by simp [← hr, drop]
    dsimp only
    rw [bind_at, expect_at hcolon]
    simp only [Option.bind_eq_bind, Option.bind_some]
    cases hc : Grammar.after? [':'] r with
    | none => rfl
    | some r' =>
      obtain rfl := Grammar.after?_eq_some_iff.1 hc
      have hblanks : text = [] ++ text.takeWhile Text.isBlank ++ v.toList ++ [':'] ++ r' := by simpa using hcolon
      have hsource : text = [] ++ text.takeWhile Text.isBlank ++ v.toList ++ [':'] ++ r'.takeWhile Text.isBlank ++
          Text.trimStart r' := by
        rw [List.append_assoc _ _ (Text.trimStart r'), drop]
        exact hblanks
      have checked : ((Grammar.path? true (Text.trimStart r')).bind fun source =>
          if limit.allows source then some (Iteration.mk v source) else none) =
          ((Grammar.path? true (Text.trimStart r')).filter limit.allows).map (Iteration.mk v) := by
        cases Grammar.path? true (Text.trimStart r') with
        | none => rfl
        | some p => by_cases hp : limit.allows p <;> simp [hp, Option.filter_some]
      dsimp only
      rw [bind_at, skipBlanks_at hblanks]
      simp only [Option.bind_some]
      rw [source_at hsource, checked]
      cases (Grammar.path? true (Text.trimStart r')).filter limit.allows <;> rfl

theorem readCondition_eq (limit : PathLimit) (value : String) :
    readCondition limit value = (Condition.read? limit value).elim (.error .refused) .ok := by
  unfold readCondition Condition.read?
  dsimp only
  split
  · rfl
  · split
    · rfl
    · rw [readPath_eq]
      cases Path.read? limit value <;> rfl

end Octets

/-- Each reader of directive values accepts what its grammar describes, with the path as it is written, and nothing else;
and reading octet by octet finds the same, without a slice that cuts a character. -/
theorem reads_exactly (limit : PathLimit) (s : String) :
    (∀ p, Path.read? limit s = some p ↔ s = p.text ∧ p.HasIdentifiers ∧ p.HasNoCall ∧ limit.Holds p) ∧
    (∀ i, Iteration.read? limit s = some i ↔ ∃ before between : String, (∀ c ∈ before.toList, Text.isBlank c) ∧
      (∀ c ∈ between.toList, Text.isBlank c) ∧ s = before ++ i.variableName ++ ":" ++ between ++ i.source.text ∧
      IsIdentifier i.variableName ∧ i.source.HasIdentifiers ∧ i.source.CallsLast ∧ limit.Holds i.source) ∧
    (∀ c, Condition.read? limit s = some c ↔ (c = .literal true ∧ Spells "true" s) ∨
      (c = .literal false ∧ Spells "false" s) ∨ ∃ p, c = .path p ∧ Path.read? limit s = some p) ∧
    Octets.readPath limit s = (Path.read? limit s).elim (.error .refused) .ok ∧
    Octets.readIteration limit s = (Iteration.read? limit s).elim (.error .refused) .ok ∧
    Octets.readCondition limit s = (Condition.read? limit s).elim (.error .refused) .ok :=
  ⟨fun _ => Path.read?_eq_some_iff, fun _ => Iteration.read?_eq_some_iff, fun _ => Condition.read?_eq_some_iff,
    Octets.readPath_eq limit s, Octets.readIteration_eq limit s, Octets.readCondition_eq limit s⟩

end Stencil
