import Stencil.Value.Text

/-! Records: host objects given by named fields, and by accessors that compute from those fields. -/

namespace Stencil

structure Record where
  typeName : String
  fields : Named Value
  accessors : Named (Named Value → Value)

namespace Record

def empty (typeName : String) : Record := ⟨typeName, [], []⟩

def insert (r : Record) (name : String) (v : Value) : Record := { r with fields := r.fields.insert name v }

def insertAccessor (r : Record) (name : String) (f : Named Value → Value) : Record :=
  { r with accessors := r.accessors.insert name f }

def get? (r : Record) (name : String) : Option Value := r.fields.get? name

def call? (r : Record) (name : String) : Option Value := (r.accessors.get? name).map (· r.fields)

def text (r : Record) : String :=
  r.typeName ++ "\x7b" ++ ", ".intercalate (r.fields.map fun (n, v) => n ++ "=" ++ v.text) ++ "\x7d"

def structureText (r : Record) : String :=
  let fields := r.fields.map fun (n, v) => Text.quote n ++ ": " ++ v.structureText
  let accessors := r.accessors.names.map Text.quote
  "Record \x7b type_name: " ++ Text.quote r.typeName ++ ", fields: \x7b" ++ ", ".intercalate fields ++
    "\x7d, accessors: [" ++ ", ".intercalate accessors ++ "] \x7d"

/-- A record as a host object. Records are not collections. -/
def toObject (identity : List Nat) (r : Record) : Object Value where
  identity
  typeName := r.typeName
  text := r.text
  structureText := r.structureText
  property := r.get?
  call := r.call?
  elements := none

def toValue (identity : List Nat) (r : Record) : Value := .object (r.toObject identity)

end Record

/-- A host object that has properties only. Its text is its type name in brackets. -/
def Object.plain (identity : List Nat) (typeName : String) (property : String → Option Value) :
    Object Value where
  identity
  typeName
  text := "[" ++ typeName ++ "]"
  structureText := "[" ++ typeName ++ "]"
  property
  call _ := none
  elements := none

end Stencil
