import Stencil.Named

/-! Values that templates see. Host data is reached through objects, which answer property reads and calls of
accessors without arguments by name. -/

namespace Stencil

/-- A host object. Two objects are the same when they were built at the same place, which `identity` names. -/
structure Object (V : Type) where
  identity : List Nat
  typeName : String
  /-- The canonical text of the object. -/
  text : String
  /-- The text that shows how the object is built. -/
  structureText : String
  property : String → Option V
  call : String → Option V
  /-- The elements in their own order, if the object is a collection. -/
  elements : Option (List V)

inductive Value
  | null
  | bool (b : Bool)
  | int (n : Int64)
  | float (x : Float)
  | string (s : String)
  | list (items : List Value)
  | object (o : Object Value)

namespace Value

def typeName : Value → String
  | null => "null"
  | bool _ => "boolean"
  | int _ => "integer"
  | float _ => "float"
  | string _ => "string"
  | list _ => "list"
  | object o => o.typeName

def asString? : Value → Option String
  | string s => some s
  | _ => none

/-- The two names under which a list tells how long it is, both as a property and as a call. -/
def lengthOf? (items : List Value) (name : String) : Option Value :=
  if name = "length" ∨ name = "size" then some (int (Int64.ofNat items.length)) else none

def property? : Value → String → Option Value
  | list items, name => lengthOf? items name
  | object o, name => o.property name
  | _, _ => none

def call? : Value → String → Option Value
  | list items, name => lengthOf? items name
  | object o, name => o.call name
  | _, _ => none

def elements? : Value → Option (List Value)
  | list items => some items
  | object o => o.elements
  | _ => none

/-- Whether a condition on this value holds: numbers when they are positive, and everything else that is
neither null nor false. -/
def isTruthy : Value → Bool
  | null => false
  | bool b => b
  | int n => 0 < n
  | float x => 0.0 < x
  | _ => true

mutual

/-- Equality by kind and content. Objects are equal only to themselves, and a float that is not a number is
not even that. -/
def same : Value → Value → Bool
  | null, null => true
  | bool a, bool b => a == b
  | int a, int b => a == b
  | float a, float b => a == b
  | string a, string b => a == b
  | list as, list bs => sameItems as bs
  | object a, object b => a.identity == b.identity
  | _, _ => false

def sameItems : List Value → List Value → Bool
  | [], [] => true
  | a :: as, b :: bs => same a b && sameItems as bs
  | _, _ => false

end

end Value
end Stencil
