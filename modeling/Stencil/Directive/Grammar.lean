import Stencil.Directive.Path
import Stencil.Text.Blank

/-! The grammar of directive values:

* a name is letters, digits and underscores of ASCII, at least one;
* an interpolation is `$`, and in braces names with points between them;
* an iteration is a name, a colon and an interpolation that may end in a call, with blanks before
  the name and after the colon;
* a condition is `true` or `false` in any case, or an interpolation.

Each rule covers the whole value. -/

namespace Stencil

/-- How many segments a path may have after its root. -/
structure PathLimit where
  most : Option Nat
  deriving Repr, DecidableEq

namespace PathLimit

def none : PathLimit := ⟨.none⟩

def allows (l : PathLimit) (p : Path) : Bool :=
  match l.most with
  | .none => true
  | some n => p.segments.length ≤ n

end PathLimit

namespace Grammar

def isNameChar (c : Char) : Bool := c.isAlphanum || c = '_'

def name? (s : List Char) : Option (String × List Char) :=
  match s.takeWhile isNameChar with
  | [] => none
  | cs => some (String.ofList cs, s.dropWhile isNameChar)

theorem length_of_name? {s rest : List Char} {name : String} (h : name? s = some (name, rest)) :
    rest.length ≤ s.length := by
  simp only [name?] at h
  split at h
  · simp at h
  · simp only [Option.some.injEq, Prod.mk.injEq] at h
    rw [← h.2]
    exact (List.dropWhile_sublist _).length_le

/-- What follows `expected` at the head of a text. -/
def after? : List Char → List Char → Option (List Char)
  | [], s => some s
  | e :: es, c :: cs => if e = c then after? es cs else none
  | _ :: _, [] => none

theorem after?_eq_some_iff {expected s rest : List Char} :
    after? expected s = some rest ↔ s = expected ++ rest := by
  induction expected generalizing s with
  | nil => simp [after?]
  | cons e es ih =>
    cases s with
    | nil => simp [after?]
    | cons c cs =>
      by_cases h : e = c
      · subst h
        simp [after?, ih]
      · simp [after?, h, Ne.symm h]

def segments? (calls : Bool) (s : List Char) : Option (List Segment × List Char) :=
  match s with
  | '.' :: r =>
    match _h : name? r with
    | none => none
    | some (name, r) =>
      match after? ['(', ')'] r with
      | some r => if calls then some ([.call name], r) else none
      | none => (segments? calls r).map fun (segments, rest) => (.property name :: segments, rest)
  | s => some ([], s)
termination_by s.length
decreasing_by have := length_of_name? _h; simp; omega

def path? (calls : Bool) (s : List Char) : Option Path := do
  let (root, r) ← name? (← after? ['$', '\x7b'] s)
  let (segments, r) ← segments? calls r
  if r = ['\x7d'] then some ⟨root, segments⟩ else none

end Grammar

/-- Reads a text directive, or the path of a condition. -/
def Path.read? (limit : PathLimit) (value : String) : Option Path :=
  (Grammar.path? false value.toList).filter limit.allows

def Iteration.read? (limit : PathLimit) (value : String) : Option Iteration := do
  let (variableName, r) ← Grammar.name? (Text.trimStart value.toList)
  let r ← Grammar.after? [':'] r
  let source ← Grammar.path? true (Text.trimStart r)
  if limit.allows source then some ⟨variableName, source⟩ else none

def Condition.read? (limit : PathLimit) (value : String) : Option Condition :=
  let lower := value.toList.map Char.toLower
  if lower = "true".toList then some (.literal true)
  else if lower = "false".toList then some (.literal false)
  else (Path.read? limit value).map .path

end Stencil
