import Stencil.Named

/-! Trees of markup. -/

namespace Stencil.Markup

inductive Closing
  /-- `<p>...</p>` -/
  | endTag
  /-- `<br/>` -/
  | selfClosing
  /-- `<br>`, of an element that never has content -/
  | void
  deriving Repr, DecidableEq

/-- An element without its children. An attribute without a value has the value `none`. -/
structure Element where
  name : String
  attrs : Named (Option String)
  closing : Closing
  deriving Repr, DecidableEq

inductive Node
  /-- Text as markup: outside of scripts and styles `&` and `<` are escaped in it. -/
  | text (content : String)
  | element (e : Element) (children : List Node)
  deriving Repr, Inhabited

/-- The elements that have neither content nor an end tag. -/
def voidNames : List String :=
  ["area", "base", "br", "col", "embed", "hr", "img", "input", "link", "meta", "source", "track", "wbr"]

def isVoid (name : String) : Bool :=
  voidNames.any fun v => v.toList = name.toList.map Char.toLower

namespace Element

/-- The value of an attribute. One without a value reads as the empty text. -/
def attr? (e : Element) (name : String) : Option String := (e.attrs.get? name).map (·.getD "")

def hasAttr (e : Element) (name : String) : Bool := (e.attrs.get? name).isSome

end Element

theorem sizeOf_node_cons (n : Node) (ns : List Node) : sizeOf (n :: ns) = 1 + sizeOf n + sizeOf ns := rfl

theorem sizeOf_nodes_append (as bs : List Node) : sizeOf (as ++ bs) + 1 = sizeOf as + sizeOf bs := by
  induction as with
  | nil => exact Nat.add_comm _ 1
  | cons a as ih =>
    rw [List.cons_append, sizeOf_node_cons, sizeOf_node_cons]
    omega

/-- The elements in the order of their start tags, found with a stack of the nodes still to be visited. -/
def visit : List Node → List Element
  | [] => []
  | .text _ :: stack => visit stack
  | .element e children :: stack => e :: visit (children ++ stack)
termination_by stack => sizeOf stack
decreasing_by
  · rw [sizeOf_node_cons]
    omega
  · have children_stack := sizeOf_nodes_append children stack
    rw [sizeOf_node_cons, Node.element.sizeOf_spec]
    omega

abbrev Document := List Node

def Document.elements (d : Document) : List Element := visit d

end Stencil.Markup
