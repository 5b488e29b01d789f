import Stencil.Proofs.Markup.Print

/-! The elements of a tree by recursion on it, each before its children. -/

namespace Stencil.Markup

mutual

def Node.preorder : Node → List Element
  | .text _ => []
  | .element e children => e :: preorder children

def preorder : List Node → List Element
  | [] => []
  | n :: ns => n.preorder ++ preorder ns

end

/-- The stack of nodes still to be visited yields the elements in document order. -/
theorem elements_eq_preorder (d : Document) : d.elements = preorder d := by
  unfold Document.elements
  induction d using nodes_induction with
  | nil => simp [visit, preorder]
  | text s ns ih => rw [visit, preorder, Node.preorder, ih, List.nil_append]
  | element e children ns ihc ih => rw [visit_element, preorder, Node.preorder, ihc, ih, List.cons_append]

end Stencil.Markup
