import Std.Data.TreeMap.Lemmas
import Stencil.Error.Basic
import Stencil.Value.OfJson

/-! Scopes: the values that names stand for while a template is rendered. A shadow frame remembers what one name
stood for, so that it can be bound anew and put back. -/

namespace Stencil

structure Scope where
  values : Std.TreeMap String Value compare

namespace Scope

def empty : Scope := ⟨∅⟩

def get? (s : Scope) (name : String) : Option Value := s.values.get? name

def put (s : Scope) (name : String) (v : Value) : Scope := ⟨s.values.insert name v⟩

def remove (s : Scope) (name : String) : Scope := ⟨s.values.erase name⟩

def contains (s : Scope) (name : String) : Bool := s.values.contains name

def size (s : Scope) : Nat := s.values.size

def toList (s : Scope) : List (String × Value) := s.values.toList

def ofList (bindings : List (String × Value)) : Scope := bindings.foldl (fun s x => s.put x.1 x.2) empty

/-- Whether both scopes bind the same names to the same values. -/
def same (s t : Scope) : Bool :=
  s.size == t.size && s.toList.all fun (name, v) => (t.get? name).any v.same

/-- One name for each key of a JSON object. -/
def ofJson (origin : List Nat) : Json → Except Error Scope
  | .object fields => .ok (ofList (Value.ofFields origin 0 fields))
  | j => .error (.config ("context must be a JSON object, got " ++ j.kind))

/-- A name, and what it stood for when the frame was opened. -/
structure Frame where
  name : String
  previous : Option Value

def shadow (s : Scope) (name : String) : Frame := ⟨name, s.get? name⟩

def restore (s : Scope) (f : Frame) : Scope :=
  match f.previous with
  | some v => s.put f.name v
  | none => s.remove f.name

@[simp] theorem get?_empty (name : String) : empty.get? name = none := by
  simp [empty, get?, Std.TreeMap.get?_eq_getElem?]

theorem get?_put (s : Scope) (n : String) (v : Value) (name : String) :
    (s.put n v).get? name = if n = name then some v else s.get? name := by
  simp [put, get?, Std.TreeMap.get?_eq_getElem?, Std.TreeMap.getElem?_insert]

theorem get?_remove (s : Scope) (n name : String) :
    (s.remove n).get? name = if n = name then none else s.get? name := by
  simp [remove, get?, Std.TreeMap.get?_eq_getElem?, Std.TreeMap.getElem?_erase]

/-- Closing a frame puts back its own name and leaves all others. -/
theorem get?_restore (s t : Scope) (n name : String) :
    (t.restore (s.shadow n)).get? name = if n = name then s.get? name else t.get? name := by
  unfold restore shadow
  cases h : s.get? n with
  | none =>
    rw [get?_remove]
    split
    · next e => rw [← e, h]
    · rfl
  | some v =>
    rw [get?_put]
    split
    · next e => rw [← e, h]
    · rfl

end Scope
end Stencil
