import Stencil.Json.Basic
import Stencil.Value.Record

/-! Values from JSON data: arrays become lists, and objects records of the type `object` without accessors. -/

namespace Stencil.Value

mutual

/-- The objects of the value get `origin`, and their places below it, as identities. -/
def ofJson (origin : List Nat) : Json → Value
  | .null => .null
  | .bool b => .bool b
  | .int n => .int n
  | .float x => .float x
  | .string s => .string s
  | .array items => .list (ofItems origin 0 items)
  | .object fields => (Record.mk "object" (Named.ofList (ofFields origin 0 fields)) []).toValue origin

def ofItems (origin : List Nat) (i : Nat) : List Json → List Value
  | [] => []
  | j :: js => ofJson (origin ++ [i]) j :: ofItems origin (i + 1) js

def ofFields (origin : List Nat) (i : Nat) : List (String × Json) → List (String × Value)
  | [] => []
  | (name, j) :: rest => (name, ofJson (origin ++ [i]) j) :: ofFields origin (i + 1) rest

end

end Stencil.Value
