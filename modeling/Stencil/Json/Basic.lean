/-! JSON data. Objects hold each key once, in the order of the keys. -/

namespace Stencil

/-- A number is an `int` when it was written as one and fits into 64 bits, and else a `float`. -/
inductive Json
  | null
  | bool (b : Bool)
  | int (n : Int64)
  | float (x : Float)
  | string (s : String)
  | array (items : List Json)
  | object (fields : List (String × Json))
  deriving Inhabited

namespace Json

/-- Adds a field in its place among fields sorted by key; a field of that key is replaced. -/
def insertField (key : String) (value : Json) : List (String × Json) → List (String × Json)
  | [] => [(key, value)]
  | (k, v) :: rest =>
    if key < k then (key, value) :: (k, v) :: rest
    else if key = k then (key, value) :: rest
    else (k, v) :: insertField key value rest

def kind : Json → String
  | null => "null"
  | bool _ => "a boolean"
  | int _ | float _ => "a number"
  | string _ => "a string"
  | array _ => "an array"
  | object _ => "an object"

inductive Problem
  | unexpected (c : Char)
  | misplaced
  | unfinished
  | badWord (word : String)
  | badNumber (text : String)
  | outOfRange (text : String)
  | badEscape
  | tooDeep
  deriving Repr, DecidableEq

def Problem.message : Problem → String
  | unexpected c => "unexpected character " ++ c.toString
  | misplaced => "value, comma or bracket out of place"
  | unfinished => "unexpected end of text"
  | badWord word => "unknown word " ++ word
  | badNumber text => "invalid number " ++ text
  | outOfRange text => "number out of range " ++ text
  | badEscape => "invalid escape"
  | tooDeep => "nested too deeply"

end Json
end Stencil
