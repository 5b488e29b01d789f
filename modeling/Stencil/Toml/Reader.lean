import Stencil.Toml.Scalar
import Stencil.Toml.Token

/-! TOML documents from their tokens, with the open arrays and inline tables on a stack. -/

namespace Stencil.Toml

/-- An array or inline table that is still open; a table also has the key of the value that comes next. -/
inductive Frame
  | array (items : List Toml)
  | inline (entries : Entries) (path : List String)

inductive Purpose
  | line
  | header
  | element
  | inline (entries : Entries) (path : List String) (stack : List Frame)

inductive Expecting
  | line
  /-- After `[` at the start of a line. -/
  | square
  | key (purpose : Purpose) (keys : List String)
  | afterKey (purpose : Purpose) (keys : List String)
  /-- After a key of an inline table and a newline, where that key does not go on. -/
  | equals (entries : Entries) (keys path : List String) (stack : List Frame)
  | value (path : List String) (stack : List Frame)
  | valueOrEnd (path : List String) (stack : List Frame)
  | keyOrEnd (entries : Entries) (path : List String) (stack : List Frame)
  /-- A value without quotes is being gathered. -/
  | scalar (path : List String) (stack : List Frame) (cs : List Char)
  /-- After a date and a space, where a time may follow. -/
  | dated (path : List String) (stack : List Frame) (cs : List Char)
  | next (path : List String) (stack : List Frame) (v : Toml)
  /-- After `[[path]`. -/
  | bracket (path : List String)
  | lineEnd

abbrev Reading := Option (Expecting × List Statement)

/-- Arrays and inline tables nest at most this deep. -/
def maxDepth : Nat := 80

/-- A dotted key has at most this many parts. -/
def maxKeyLength : Nat := 80

def isKeyChar (c : Char) : Bool := c.isAlphanum || c = '_' || c = '-'

/-- The key part that a token is. -/
def keyOf? : Token → Option String
  | .text s false => some s
  | .atom cs => if cs.all isKeyChar then some (String.ofList cs) else none
  | _ => none

def keyStep (purpose : Purpose) (keys : List String) (t : Token) : Reading :=
  match t with
  | .blank _ => some (.key purpose keys, [])
  | t =>
    if keys.length < maxKeyLength then (keyOf? t).map fun k => (.afterKey purpose (keys ++ [k]), [])
    else none

/-- After a whole key of an inline table. -/
def equalsStep (entries : Entries) (keys path : List String) (stack : List Frame) (t : Token) : Reading :=
  match t with
  | .blank _ | .newline => some (.equals entries keys path stack, [])
  | .equals => some (.value path (.inline entries keys :: stack), [])
  | _ => none

def afterKeyStep (purpose : Purpose) (keys : List String) (t : Token) : Reading :=
  match t, purpose with
  | .blank _, _ => some (.afterKey purpose keys, [])
  | .dot, _ => some (.key purpose keys, [])
  | .equals, .line => some (.value keys [], [])
  | t, .inline entries path stack => equalsStep entries keys path stack t
  | .closeSquare, .header => some (.lineEnd, [.header keys])
  | .closeSquare, .element => some (.bracket keys, [])
  | _, _ => none

def valueStep (path : List String) (stack : List Frame) (t : Token) : Reading :=
  match t, stack with
  | .blank _, _ | .newline, .inline .. :: _ => some (.value path stack, [])
  | .text s _, _ => some (.next path stack (.string s), [])
  | .atom cs, _ => some (.scalar path stack cs, [])
  | .openSquare, _ => if stack.length < maxDepth then some (.valueOrEnd path (.array [] :: stack), []) else none
  | .openCurly, _ => if stack.length < maxDepth then some (.keyOrEnd [] path stack, []) else none
  | _, _ => none

def nextStep (path : List String) (stack : List Frame) (v : Toml) (t : Token) : Reading :=
  match stack, t with
  | _, .blank _ => some (.next path stack v, [])
  | [], .newline => some (.line, [.assign path v])
  | [], _ => none
  | _, .newline => some (.next path stack v, [])
  | .array items :: stack, .comma => some (.valueOrEnd path (.array (v :: items) :: stack), [])
  | .array items :: stack, .closeSquare => some (.next path stack (.array (v :: items).reverse), [])
  | .inline entries keys :: stack, .comma =>
    (assign v keys entries).map fun entries => (.keyOrEnd entries path stack, [])
  | .inline entries keys :: stack, .closeCurly =>
    (assign v keys entries).map fun entries => (.next path stack (.table (entriesData entries)), [])
  | _, _ => none

def scalarEnd (path : List String) (stack : List Frame) (cs : List Char) (t : Token) : Reading := do
  nextStep path stack (← scalar? cs) t

def Expecting.step (e : Expecting) (t : Token) : Reading :=
  match e with
  | .line =>
    match t with
    | .blank _ | .newline => some (line, [])
    | .openSquare => some (square, [])
    | t => keyStep .line [] t
  | .square =>
    match t with
    | .openSquare => some (key .element [], [])
    | t => keyStep .header [] t
  | .key purpose keys => keyStep purpose keys t
  | .afterKey purpose keys => afterKeyStep purpose keys t
  | .equals entries keys path stack => equalsStep entries keys path stack t
  | .value path stack => valueStep path stack t
  | .valueOrEnd path stack =>
    match t, stack with
    | .blank _, _ | .newline, _ => some (valueOrEnd path stack, [])
    | .closeSquare, .array items :: stack => some (next path stack (.array items.reverse), [])
    | t, _ => valueStep path stack t
  | .keyOrEnd entries path stack =>
    match t with
    | .blank _ | .newline => some (keyOrEnd entries path stack, [])
    | .closeCurly => some (next path stack (.table (entriesData entries)), [])
    | t => keyStep (.inline entries path stack) [] t
  | .scalar path stack cs =>
    match t with
    | .atom more => some (scalar path stack (cs ++ more), [])
    | .dot => some (scalar path stack (cs ++ ['.']), [])
    | .blank ' ' => if isDate cs then some (dated path stack cs, []) else scalarEnd path stack cs t
    | t => scalarEnd path stack cs t
  | .dated path stack cs =>
    match t with
    | .atom (d :: more) =>
      if d.isDigit then some (scalar path stack (cs ++ ' ' :: d :: more), []) else none
    | t => scalarEnd path stack cs t
  | .next path stack v => nextStep path stack v t
  | .bracket path => if t = .closeSquare then some (lineEnd, [.element path]) else none
  | .lineEnd =>
    match t with
    | .blank _ => some (lineEnd, [])
    | .newline => some (line, [])
    | _ => none

def statements (e : Expecting) : List Token → Option (List Statement)
  | [] =>
    match e.step .newline with
    | some (.line, last) => some last
    | _ => none
  | t :: ts => do
    let (e, now) ← e.step t
    return now ++ (← statements e ts)

/-- Reads a document as its top table. A byte order mark may come first. -/
def read? (text : String) : Option (List (String × Toml)) := do
  let cs := match text.toList with
    | '\ufeff' :: cs => cs
    | cs => cs
  let tables ← (← statements .line (← Token.scan .between cs)).foldlM Tables.step .empty
  return entriesData tables.root

end Stencil.Toml
