import Stencil.Text.Hex

/-! The tokens of a TOML document, read character by character. Comments leave only the newline after them. -/

namespace Stencil.Toml

inductive Token
  /-- A space or a tab. -/
  | blank (c : Char)
  | newline
  | dot
  | comma
  | equals
  | openSquare
  | closeSquare
  | openCurly
  | closeCurly
  /-- A quoted text, and whether its quotes let it go over several lines. -/
  | text (s : String) (multiline : Bool)
  /-- A run of other characters. -/
  | atom (cs : List Char)
  deriving Repr, DecidableEq

namespace Token

structure Quote where
  mark : Char
  multiline : Bool
  deriving Repr, DecidableEq

inductive State
  | between
  | atom (cs : List Char)
  /-- After a carriage return, which only a newline may follow. -/
  | return
  | comment
  /-- After one or two quotation marks that open a text. -/
  | opening (mark : Char) (two : Bool)
  /-- After three, where one newline is dropped. -/
  | opened (mark : Char)
  | openedReturn (mark : Char)
  /-- In a text, after as many marks that may close it. -/
  | text (q : Quote) (cs : List Char) (marks : Nat)
  | textReturn (q : Quote) (cs : List Char)
  | escape (q : Quote) (cs : List Char)
  | numeric (q : Quote) (cs : List Char) (owed : Nat) (digits : List Char)
  /-- After a backslash that ends a line: blanks are dropped until the text goes on. -/
  | joining (q : Quote) (cs : List Char) (broken : Bool)
  | joiningReturn (q : Quote) (cs : List Char)

abbrev Step := Option (State × List Token)

def isControl (c : Char) : Bool := (c < ' ' && c ≠ '\t') || c = '\x7f'

def between (c : Char) : Step :=
  match c with
  | ' ' | '\t' => some (.between, [.blank c])
  | '\n' => some (.between, [.newline])
  | '\r' => some (.return, [])
  | '#' => some (.comment, [])
  | '.' => some (.between, [.dot])
  | ',' => some (.between, [.comma])
  | '=' => some (.between, [.equals])
  | '[' => some (.between, [.openSquare])
  | ']' => some (.between, [.closeSquare])
  | '\x7b' => some (.between, [.openCurly])
  | '\x7d' => some (.between, [.closeCurly])
  | '"' | '\'' => some (.opening c false, [])
  | c => some (.atom [c], [])

def isAtomChar (c : Char) : Bool :=
  !(" \t\n\r#.,=[]\x7b\x7d\"'".toList.contains c)

def closed (q : Quote) (cs : List Char) : Token := .text (String.ofList cs.reverse) q.multiline

def inText (q : Quote) (cs : List Char) (c : Char) : Step :=
  if c = '\\' ∧ q.mark = '"' then some (.escape q cs, [])
  else if q.multiline ∧ c = '\n' then some (.text q (c :: cs) 0, [])
  else if q.multiline ∧ c = '\r' then some (.textReturn q cs, [])
  else if isControl c then none
  else some (.text q (c :: cs) 0, [])

def ended (t : Token) (c : Char) : Step := (between c).map fun (s, ts) => (s, t :: ts)

def textStep (q : Quote) (cs : List Char) (marks : Nat) (c : Char) : Step :=
  if q.multiline then
    if c = q.mark then
      if marks = 5 then ended (closed q (List.replicate 2 c ++ cs)) c else some (.text q cs (marks + 1), [])
    else if 3 ≤ marks then ended (closed q (List.replicate (marks - 3) q.mark ++ cs)) c
    else inText q (List.replicate marks q.mark ++ cs) c
  else if c = q.mark then some (.between, [closed q cs])
  else inText q cs c

def escaped? : Char → Option Char
  | '"' => some '"'
  | '\\' => some '\\'
  | 'b' => some '\x08'
  | 'e' => some '\x1b'
  | 'f' => some '\x0c'
  | 'n' => some '\n'
  | 'r' => some '\r'
  | 't' => some '\t'
  | _ => none

/-- How many digits a numeric escape has. -/
def width? : Char → Option Nat
  | 'x' => some 2
  | 'u' => some 4
  | 'U' => some 8
  | _ => none

/-- A character after a backslash that ends a line, if it is to be dropped. -/
def joinStep (q : Quote) (cs : List Char) (broken : Bool) (c : Char) : Option State :=
  match c with
  | ' ' | '\t' => some (.joining q cs broken)
  | '\r' => some (.joiningReturn q cs)
  | '\n' => some (.joining q cs true)
  | _ => none

def char? (n : Nat) : Option Char := if n.isValidChar then some (Char.ofNat n) else none

def step (s : State) (c : Char) : Step :=
  match s with
  | .between => between c
  | .atom cs => if isAtomChar c then some (.atom (c :: cs), []) else ended (.atom cs.reverse) c
  | .return => if c = '\n' then some (.between, [.newline]) else none
  | .comment =>
    if c = '\n' ∨ c = '\r' then between c else if isControl c then none else some (.comment, [])
  | .opening mark false =>
    if c = mark then some (.opening mark true, []) else textStep ⟨mark, false⟩ [] 0 c
  | .opening mark true =>
    if c = mark then some (.opened mark, []) else ended (closed ⟨mark, false⟩ []) c
  | .opened mark =>
    if c = '\n' then some (.text ⟨mark, true⟩ [] 0, [])
    else if c = '\r' then some (.openedReturn mark, [])
    else textStep ⟨mark, true⟩ [] 0 c
  | .openedReturn mark => if c = '\n' then some (.text ⟨mark, true⟩ [] 0, []) else none
  | .text q cs marks => textStep q cs marks c
  | .textReturn q cs => if c = '\n' then some (.text q ('\n' :: '\r' :: cs) 0, []) else none
  | .escape q cs =>
    match escaped? c, width? c with
    | some d, _ => some (.text q (d :: cs) 0, [])
    | none, some n => some (.numeric q cs n [], [])
    | none, none => if q.multiline then (joinStep q cs false c).map (·, []) else none
  | .numeric q cs owed digits =>
    if (Text.hexDigit? c).isNone then none
    else if 1 < owed then some (.numeric q cs (owed - 1) (digits ++ [c]), [])
    else (char? (Text.hexNumber (digits ++ [c]))).map fun d => (.text q (d :: cs) 0, [])
  | .joining q cs broken =>
    match joinStep q cs broken c with
    | some next => some (next, [])
    | none => if broken then textStep q cs 0 c else none
  | .joiningReturn q cs => if c = '\n' then some (.joining q cs true, []) else none

def finish : State → Option (List Token)
  | .between | .comment => some []
  | .atom cs => some [.atom cs.reverse]
  | .opening mark true => some [closed ⟨mark, false⟩ []]
  | .text q cs marks =>
    if q.multiline ∧ 3 ≤ marks then some [closed q (List.replicate (marks - 3) q.mark ++ cs)] else none
  | _ => none

def scan (s : State) : List Char → Option (List Token)
  | [] => finish s
  | c :: cs => do
    let (s, ts) ← step s c
    return ts ++ (← scan s cs)

end Token
end Stencil.Toml
