import Stencil.Json.Number
import Stencil.Text.Hex

/-! The tokens of a JSON text, read character by character. -/

namespace Stencil.Json

inductive Token
  | openArray
  | closeArray
  | openObject
  | closeObject
  | comma
  | colon
  | string (s : String)
  | scalar (v : Json)

namespace Token

inductive State
  | between
  | word (letters : List Char)
  | number (chars : List Char)
  | string (chars : List Char)
  | escape (chars : List Char)
  /-- Inside a numeric escape: the high surrogate before it, if any, and its digits so far. -/
  | unicode (chars : List Char) (high : Option Nat) (digits : List Char)
  /-- After a high surrogate, whose other half must follow: whether its backslash has been read. -/
  | half (chars : List Char) (high : Nat) (backslash : Bool)

def word (letters : List Char) : Except Problem Token :=
  match String.ofList letters with
  | "null" => .ok (.scalar .null)
  | "true" => .ok (.scalar (.bool true))
  | "false" => .ok (.scalar (.bool false))
  | other => .error (.badWord other)

def isNumberChar (c : Char) : Bool :=
  c.isDigit || c = '-' || c = '+' || c = '.' || c = 'e' || c = 'E'

def between (c : Char) : Except Problem (State × List Token) :=
  match c with
  | ' ' | '\t' | '\n' | '\r' => .ok (.between, [])
  | '[' => .ok (.between, [openArray])
  | ']' => .ok (.between, [closeArray])
  | '\x7b' => .ok (.between, [openObject])
  | '\x7d' => .ok (.between, [closeObject])
  | ',' => .ok (.between, [comma])
  | ':' => .ok (.between, [colon])
  | '"' => .ok (.string [], [])
  | c =>
    if c.isDigit || c = '-' then .ok (.number [c], [])
    else if c.isLower then .ok (.word [c], [])
    else .error (.unexpected c)

def escaped? : Char → Option Char
  | '"' => some '"'
  | '\\' => some '\\'
  | '/' => some '/'
  | 'b' => some '\x08'
  | 'f' => some '\x0c'
  | 'n' => some '\n'
  | 'r' => some '\r'
  | 't' => some '\t'
  | _ => none

/-- What a whole numeric escape of value `n` adds to a string. -/
def unit (chars : List Char) (high : Option Nat) (n : Nat) : Except Problem State :=
  match high with
  | none =>
    if 0xd800 ≤ n ∧ n < 0xdc00 then .ok (.half chars n false)
    else if 0xdc00 ≤ n ∧ n < 0xe000 then .error .badEscape
    else .ok (.string (Char.ofNat n :: chars))
  | some h =>
    if 0xdc00 ≤ n ∧ n < 0xe000 then
      .ok (.string (Char.ofNat (0x10000 + (h - 0xd800) * 0x400 + (n - 0xdc00)) :: chars))
    else .error .badEscape

/-- Characters of a string, word or number are kept last first. -/
def step : State → Char → Except Problem (State × List Token)
  | .between, c => between c
  | .word letters, c =>
    if c.isLower then .ok (.word (c :: letters), [])
    else do
      let t ← word letters.reverse
      let (s, ts) ← between c
      return (s, t :: ts)
  | .number chars, c =>
    if isNumberChar c then .ok (.number (c :: chars), [])
    else do
      let v ← Number.ofChars chars.reverse
      let (s, ts) ← between c
      return (s, scalar v :: ts)
  | .string chars, c =>
    if c = '"' then .ok (.between, [.string (String.ofList chars.reverse)])
    else if c = '\\' then .ok (.escape chars, [])
    else if c < ' ' then .error (.unexpected c)
    else .ok (.string (c :: chars), [])
  | .escape chars, c =>
    if c = 'u' then .ok (.unicode chars none [], [])
    else match escaped? c with
      | some d => .ok (.string (d :: chars), [])
      | none => .error .badEscape
  | .unicode chars high digits, c =>
    if (Text.hexDigit? c).isNone then .error .badEscape
    else if digits.length < 3 then .ok (.unicode chars high (digits ++ [c]), [])
    else (unit chars high (Text.hexNumber (digits ++ [c]))).map (·, [])
  | .half chars high false, c =>
    if c = '\\' then .ok (.half chars high true, []) else .error .badEscape
  | .half chars high true, c =>
    if c = 'u' then .ok (.unicode chars (some high) [], []) else .error .badEscape

def finish : State → Except Problem (List Token)
  | .between => .ok []
  | .word letters => (word letters.reverse).map ([·])
  | .number chars => (Number.ofChars chars.reverse).map ([scalar ·])
  | _ => .error .unfinished

def scan (s : State) : List Char → Except Problem (List Token)
  | [] => finish s
  | c :: cs => do
    let (s, ts) ← step s c
    return ts ++ (← scan s cs)

end Token
end Stencil.Json
