import Stencil.Json.Token

/-! JSON data from its tokens, with the open arrays and objects on a stack. -/

namespace Stencil.Json

/-- An array or object that is still open, with what it holds so far; an object also has the key of the
value that comes next. -/
inductive Frame
  | array (items : List Json)
  | object (fields : List (String × Json)) (key : String)

inductive Expecting
  | value (stack : List Frame)
  | valueOrEnd (stack : List Frame)
  | key (stack : List Frame) (fields : List (String × Json))
  | keyOrEnd (stack : List Frame)
  | colon (stack : List Frame) (fields : List (String × Json)) (key : String)
  /-- A value is whole, and a comma or the end of what holds it follows. -/
  | next (stack : List Frame) (v : Json)

/-- Arrays and objects nest at most this deep. -/
def maxDepth : Nat := 127

def value (stack : List Frame) (t : Token) : Except Problem Expecting :=
  match t with
  | .string s => .ok (.next stack (.string s))
  | .scalar v => .ok (.next stack v)
  | .openArray => if stack.length < maxDepth then .ok (.valueOrEnd stack) else .error .tooDeep
  | .openObject => if stack.length < maxDepth then .ok (.keyOrEnd stack) else .error .tooDeep
  | _ => .error .misplaced

def Expecting.step : Expecting → Token → Except Problem Expecting
  | .value stack, t => Json.value stack t
  | .valueOrEnd stack, t =>
    match t with
    | .closeArray => .ok (.next stack (.array []))
    | t => Json.value (.array [] :: stack) t
  | .key stack fields, t =>
    match t with
    | .string s => .ok (.colon stack fields s)
    | _ => .error .misplaced
  | .keyOrEnd stack, t =>
    match t with
    | .closeObject => .ok (.next stack (.object []))
    | .string s => .ok (.colon stack [] s)
    | _ => .error .misplaced
  | .colon stack fields name, t =>
    match t with
    | .colon => .ok (.value (.object fields name :: stack))
    | _ => .error .misplaced
  | .next (.array items :: stack) v, t =>
    match t with
    | .comma => .ok (.value (.array (v :: items) :: stack))
    | .closeArray => .ok (.next stack (.array (v :: items).reverse))
    | _ => .error .misplaced
  | .next (.object fields name :: stack) v, t =>
    match t with
    | .comma => .ok (.key stack (insertField name v fields))
    | .closeObject => .ok (.next stack (.object (insertField name v fields)))
    | _ => .error .misplaced
  | .next [] _, _ => .error .misplaced

def ofTokens (e : Expecting) : List Token → Except Problem Json
  | [] => match e with
    | .next [] v => .ok v
    | _ => .error .unfinished
  | t :: ts => do ofTokens (← e.step t) ts

def read (text : String) : Except Problem Json := do
  ofTokens (.value []) (← Token.scan .between text.toList)

end Stencil.Json
