import Stencil.Markup.Node
import Stencil.Markup.Token.OfEvents
import Stencil.Noted

/-! Trees from tokens. Every element that is neither closed by its own tag nor void needs its end tag. -/

namespace Stencil.Markup

/-- An element that waits for its end tag, with its children so far, the last one first. -/
structure OpenElement where
  element : Element
  position : Position
  children : List Node

/-- The nodes outside of all open elements, the last one first, and the open elements, the innermost first. -/
structure Builder where
  nodes : List Node
  stack : List OpenElement

inductive Imbalance
  | mismatch (name expected : String) (opened : Position)
  | stray (name : String)
  | unclosed (name : String)
  deriving Repr, DecidableEq

def Position.text (p : Position) : String := toString p.line ++ ":" ++ toString p.column

def Imbalance.message : Imbalance → String
  | mismatch name expected opened =>
    "unexpected </" ++ name ++ ">, expected </" ++ expected ++ "> (opened at " ++ opened.text ++ ")"
  | stray name => "unexpected </" ++ name ++ "> with no open element"
  | unclosed name => "<" ++ name ++ "> is never closed"

namespace Builder

def empty : Builder := ⟨[], []⟩

def add (b : Builder) (n : Node) : Builder :=
  match b.stack with
  | parent :: stack => { b with stack := { parent with children := n :: parent.children } :: stack }
  | [] => { b with nodes := n :: b.nodes }

def elementOf (name : String) (attrs : List (String × Option String)) (selfClosing : Bool) : Element :=
  let closing := if selfClosing then Closing.selfClosing else if isVoid name then .void else .endTag
  ⟨name, Named.ofList attrs, closing⟩

def openTag (b : Builder) (e : Element) (p : Position) : Builder :=
  match e.closing with
  | .endTag => { b with stack := ⟨e, p, []⟩ :: b.stack }
  | _ => b.add (.element e [])

/-- End tags of void elements are passed over; any other one closes the innermost open element. -/
def closeTag (b : Builder) (name : String) (p : Position) : Except (Imbalance × Position) Builder :=
  if isVoid name then .ok b
  else match b.stack with
    | [] => .error (.stray name, p)
    | current :: stack =>
      if current.element.name = name then
        .ok (add { b with stack } (.element current.element current.children.reverse))
      else .error (.mismatch name current.element.name current.position, p)

def step (b : Builder) (t : Token) : Except (Imbalance × Position) Builder :=
  match t.kind with
  | .text content => .ok (b.add (.text content))
  | .startTag name attrs selfClosing => .ok (b.openTag (elementOf name attrs selfClosing) t.position)
  | .endTag name => b.closeTag name t.position
  | .eof => .ok b

def finish (b : Builder) : Except (Imbalance × Position) Document :=
  match b.stack with
  | [] => .ok b.nodes.reverse
  | unclosed :: _ => .error (.unclosed unclosed.element.name, unclosed.position)

/-- A note on each end tag that is passed over until the tokens end or fail to fit. -/
def notes (b : Builder) : List Token → List Note
  | [] => []
  | t :: ts =>
    let new := match t.kind with
      | .endTag name =>
        if isVoid name then [⟨.debug, "ignoring stray </" ++ name ++ "> at " ++ t.position.text⟩] else []
      | _ => []
    match b.step t with
    | .ok b => new ++ b.notes ts
    | .error _ => new

end Builder

namespace Document

def ofTokens (ts : List Token) : Except (Imbalance × Position) Document := do
  (← ts.foldlM Builder.step .empty).finish

/-- The tree of a source, with notes on what was passed over in it. -/
def parse (source : String) : Noted Document where
  result := (ofTokens (tokens source)).mapError fun (imbalance, p) => .parse imbalance.message p.line p.column
  notes := Builder.empty.notes (tokens source)

end Document
end Stencil.Markup
