import Stencil.Proofs.Command.Loading
import Stencil.Proofs.Markup.Sourced

/-! The elements of a document one by one. They are asked for with a stack of the nodes still to be visited, and come as
the tree has them and as its start tags came in the source. -/

namespace Stencil.Markup

/-! ### Asking for elements -/

/-- The next element, if there is one, and the nodes that are still to be visited then. -/
def nextElement : List Node → Option Element × List Node
  | [] => (none, [])
  | .text _ :: stack => nextElement stack
  | .element e children :: stack => (some e, children ++ stack)

/-- What comes when elements are asked for once more after `n` times. -/
def asked (stack : List Node) : Nat → Option Element
  | 0 => (nextElement stack).1
  | n + 1 => asked (nextElement stack).2 n

theorem visit_eq_nextElement (stack : List Node) :
    visit stack = (nextElement stack).1.toList ++ visit (nextElement stack).2 := by
  induction stack with
  | nil => rfl
  | cons n stack ih =>
    cases n with
    | text s => rw [visit, nextElement, ih]
    | element e children => rw [visit, nextElement]; rfl

theorem nextElement_of_none {stack : List Node} (h : (nextElement stack).1 = none) : (nextElement stack).2 = [] := by
  induction stack with
  | nil => rfl
  | cons n stack ih =>
    cases n with
    | text s => exact ih h
    | element e children => cases h

theorem asked_eq (stack : List Node) (n : Nat) : asked stack n = (visit stack)[n]? := by
  induction n generalizing stack with
  | zero =>
    rw [visit_eq_nextElement, asked]
    cases h : (nextElement stack).1 with
    | none => rw [nextElement_of_none h, visit]; rfl
    | some e => rfl
  | succ n ih =>
    rw [visit_eq_nextElement, asked, ih]
    cases h : (nextElement stack).1 with
    | none => rw [nextElement_of_none h, visit]; rfl
    | some e => rfl

/-! ### Addresses -/

def Node.element? : Node → Option Element
  | .text _ => none
  | .element e _ => some e

def Node.children : Node → List Node
  | .text _ => []
  | .element _ children => children

/-- The element in a node at an address, which says at each level which child to take. -/
def Node.elementAt? (n : Node) : List Nat → Option Element
  | [] => n.element?
  | i :: is => n.children[i]?.bind fun child => child.elementAt? is

def elementAt? (ns : List Node) : List Nat → Option Element
  | [] => none
  | i :: is => ns[i]?.bind fun n => n.elementAt? is

/-- The elements are those of the document, each once: they have different addresses, which are all there are, and come in
their order. There an element comes before what is in it, and that before what follows the element. -/
def InDocumentOrder (d : Document) (es : List Element) : Prop :=
  ∃ addresses : List (List Nat), addresses.Pairwise (· < ·) ∧ (∀ a, a ∈ addresses ↔ (elementAt? d a).isSome) ∧
    addresses.map (elementAt? d) = es.map some

mutual

/-- The elements of a node with their addresses in it. -/
def Node.addressed : Node → List (List Nat × Element)
  | .text _ => []
  | .element e children => ([], e) :: addressed 0 children

/-- The elements of nodes with their addresses, where the first node has the number `i`. -/
def addressed (i : Nat) : List Node → List (List Nat × Element)
  | [] => []
  | n :: ns => n.addressed.map (fun x => (i :: x.1, x.2)) ++ addressed (i + 1) ns

end

theorem map_snd_addressed (i : Nat) (ns : List Node) : (addressed i ns).map Prod.snd = preorder ns := by
  have shifted : ∀ (i : Nat) (xs : List (List Nat × Element)),
      (xs.map fun x => (i :: x.1, x.2)).map Prod.snd = xs.map Prod.snd := by
    intro i xs
    rw [List.map_map]
    rfl
  induction ns using nodes_induction generalizing i with
  | nil => rfl
  | text s ns ih =>
    rw [addressed, Node.addressed, preorder, Node.preorder, List.map_nil, List.nil_append, ih, List.nil_append]
  | element e children ns ihc ih =>
    rw [addressed, Node.addressed, preorder, Node.preorder, List.map_append, shifted, List.map_cons, ihc, ih]

/-- An element stands among nodes at these addresses, where the first node has the number `i`. -/
def AddressedFrom (i : Nat) (ns : List Node) (e : Element) (a : List Nat) : Prop :=
  ∃ j is, a = (i + j) :: is ∧ elementAt? ns (j :: is) = some e

theorem addressedFrom_zero {ns : List Node} {e : Element} {a : List Nat} :
    AddressedFrom 0 ns e a ↔ elementAt? ns a = some e := by
  constructor
  · rintro ⟨j, is, rfl, hat⟩
    rwa [Nat.zero_add]
  · intro hat
    cases a with
    | nil => cases hat
    | cons j is => exact ⟨j, is, by rw [Nat.zero_add], hat⟩

theorem addressedFrom_cons {i : Nat} {n : Node} {ns : List Node} {e : Element} {a : List Nat} :
    AddressedFrom i (n :: ns) e a ↔ (∃ is, a = i :: is ∧ n.elementAt? is = some e) ∨ AddressedFrom (i + 1) ns e a := by
  constructor
  · rintro ⟨j, is, rfl, hat⟩
    cases j with
    | zero => exact .inl ⟨is, rfl, hat⟩
    | succ j => exact .inr ⟨j, is, by rw [Nat.add_right_comm]; rfl, hat⟩
  · rintro (⟨is, rfl, hat⟩ | ⟨j, is, rfl, hat⟩)
    · exact ⟨0, is, rfl, hat⟩
    · exact ⟨j + 1, is, by rw [Nat.add_right_comm]; rfl, hat⟩

theorem mem_addressed_cons {i : Nat} {n : Node} {ns : List Node} {e : Element} {a : List Nat} :
    (a, e) ∈ addressed i (n :: ns) ↔ (∃ is, a = i :: is ∧ (is, e) ∈ n.addressed) ∨ (a, e) ∈ addressed (i + 1) ns := by
  rw [addressed, List.mem_append, List.mem_map]
  refine or_congr_left ⟨?_, ?_⟩
  · rintro ⟨⟨is, e'⟩, hmem, heq⟩
    obtain ⟨rfl, rfl⟩ := Prod.mk.inj heq
    exact ⟨is, rfl, hmem⟩
  · rintro ⟨is, rfl, hmem⟩
    exact ⟨(is, e), hmem, rfl⟩

theorem mem_addressed {i : Nat} {ns : List Node} {a : List Nat} {e : Element} :
    (a, e) ∈ addressed i ns ↔ AddressedFrom i ns e a := by
  induction ns using nodes_induction generalizing i a with
  | nil => simp [addressed, AddressedFrom, elementAt?]
  | text s ns ih =>
    have first : ∀ is, (is, e) ∈ (Node.text s).addressed ↔ (Node.text s).elementAt? is = some e := by
      intro is
      cases is <;> simp [Node.addressed, Node.elementAt?, Node.element?, Node.children]
    simp only [mem_addressed_cons, addressedFrom_cons, first, ih]
  | element d children ns ihc ih =>
    have first : ∀ is, (is, e) ∈ (Node.element d children).addressed ↔ (Node.element d children).elementAt? is = some e := by
      intro is
      rw [Node.addressed, List.mem_cons, ihc, addressedFrom_zero]
      cases is with
      | nil => simp [Node.elementAt?, Node.element?, elementAt?, eq_comm]
      | cons i is => simp [Node.elementAt?, Node.children, elementAt?]
    simp only [mem_addressed_cons, addressedFrom_cons, first, ih]

theorem pairwise_addressed (i : Nat) (ns : List Node) : ((addressed i ns).map Prod.fst).Pairwise (· < ·) := by
  have shifted : ∀ (i : Nat) (xs : List (List Nat × Element)), (xs.map Prod.fst).Pairwise (· < ·) →
      ((xs.map fun x => (i :: x.1, x.2)).map Prod.fst).Pairwise (· < ·) := by
    intro i xs h
    rw [List.map_map]
    rw [List.pairwise_map] at h ⊢
    exact h.imp fun hlt => List.cons_lt_cons_iff.2 (.inr ⟨rfl, hlt⟩)
  induction ns using nodes_induction generalizing i with
  | nil => exact .nil
  | text s ns ih => exact ih (i + 1)
  | element e children ns ihc ih =>
    rw [addressed, List.map_append, List.pairwise_append]
    refine ⟨shifted i _ ?_, ih (i + 1), ?_⟩
    · rw [Node.addressed, List.map_cons, List.pairwise_cons]
      refine ⟨?_, ihc 0⟩
      intro a ha
      obtain ⟨⟨a, e'⟩, hmem, rfl⟩ := List.mem_map.1 ha
      obtain ⟨j, is, rfl, -⟩ := mem_addressed.1 hmem
      exact List.nil_lt_cons _ _
    · -- what follows an element has a greater number than all that is in it
      intro a ha b hb
      obtain ⟨⟨_, _⟩, hmem, rfl⟩ := List.mem_map.1 ha
      obtain ⟨⟨is, _⟩, -, heq⟩ := List.mem_map.1 hmem
      obtain ⟨rfl, rfl⟩ := Prod.mk.inj heq
      obtain ⟨⟨_, _⟩, hmem, rfl⟩ := List.mem_map.1 hb
      obtain ⟨j, js, rfl, -⟩ := mem_addressed.1 hmem
      exact List.cons_lt_cons_iff.2 (.inl (by omega))

theorem inDocumentOrder_preorder (d : Document) : InDocumentOrder d (preorder d) := by
  refine ⟨(addressed 0 d).map Prod.fst, pairwise_addressed 0 d, fun a => ?_, ?_⟩
  · rw [Option.isSome_iff_exists]
    simp only [← addressedFrom_zero, ← mem_addressed]
    exact List.mem_map.trans ⟨fun ⟨x, hx, ha⟩ => ⟨x.2, ha ▸ hx⟩, fun ⟨e, he⟩ => ⟨(a, e), he, rfl⟩⟩
  · rw [← map_snd_addressed 0 d, List.map_map, List.map_map]
    apply List.map_congr_left
    intro x hx
    exact addressedFrom_zero.1 (mem_addressed.1 hx)

/-! ### Start tags -/

def TokenKind.opens? : TokenKind → Option (String × List (String × Option String))
  | .startTag name attrs _ => some (name, attrs)
  | _ => none

def startTags (source : String) : List (String × List (String × Option String)) :=
  (tokens source).filterMap fun t => t.kind.opens?

theorem filterMap_visible (ks : List TokenKind) :
    (ks.flatMap TokenKind.visible).filterMap TokenKind.opens? = ks.filterMap TokenKind.opens? := by
  induction ks with
  | nil => rfl
  | cons k ks ih =>
    have first : k.visible.filterMap TokenKind.opens? = [k].filterMap TokenKind.opens? := by
      cases k with
      | endTag name =>
        rw [TokenKind.visible]
        split <;> rfl
      | _ => rfl
    rw [List.flatMap_cons, List.filterMap_append, ih, first, ← List.filterMap_append, List.singleton_append]

theorem filterMap_kinds {ns : List Node} (h : Balanced ns) :
    (kinds ns).filterMap TokenKind.opens? = (preorder ns).map fun e => (e.name, e.attrs) := by
  induction ns using nodes_induction with
  | nil => rfl
  | text s ns ih => exact ih h.2
  | element e children ns ihc ih =>
    obtain ⟨⟨-, hclosed, hchildren⟩, hns⟩ := h
    have first : (Node.element e children).kinds.filterMap TokenKind.opens? =
        (e.name, e.attrs) :: (preorder children).map fun e => (e.name, e.attrs) := by
      rw [Node.kinds]
      by_cases hend : e.closing = .endTag
      · rw [hend]
        simp [TokenKind.opens?, ihc hchildren]
      · obtain rfl := hclosed.childless hend
        cases hc : e.closing with
        | endTag => exact absurd hc hend
        | _ => rfl
    rw [kinds, List.filterMap_append, first, ih hns, preorder, Node.preorder, List.map_append, List.map_cons]

/-- The elements of a document that is read come with the names and the attributes of the start tags of its source. -/
theorem startTags_of_parse {source : String} {d : Document} (h : (Document.parse source).result = .ok d) :
    startTags source = d.elements.map fun e => (e.name, e.attrs) := by
  obtain ⟨hkinds, -, hbalanced⟩ := lawful_parse h
  have visible := filterMap_visible ((tokens source).map Token.kind)
  rw [hkinds, filterMap_kinds hbalanced, List.filterMap_map] at visible
  rw [elements_eq_preorder, visible]
  rfl

end Stencil.Markup

namespace Stencil

open Markup

theorem Template.parse_of_ofFile {files : Files} {name : String} {t : Template} (h : ofFile files name = .ok t) :
    ∃ source, files.readText name = .ok source ∧ (Document.parse source).result = .ok t.document := by
  unfold ofFile at h
  split at h
  · cases h
  · next source hfile =>
    refine ⟨source, hfile, ?_⟩
    unfold parse at h
    dsimp only at h
    split at h
    · next d hd =>
      obtain rfl := Except.ok.inj h
      exact hd
    · cases h

namespace Command

theorem check_of_exit {files : Files} {template : String} {a : Arguments} (h : (check files template a).exit = 0) :
    ∃ source, files.readText template = .ok source ∧ check files template a =
      ⟨0, template ++ ": ok (" ++ toString (startTags source).length ++ " elements)\n", ""⟩ := by
  unfold check at h ⊢
  dsimp only at h ⊢
  split at h
  · next t checked =>
    obtain ⟨t', loaded, checked⟩ := ok_of_bind checked
    obtain ⟨⟨⟩, -, checked⟩ := ok_of_bind checked
    obtain rfl := Except.ok.inj checked
    obtain ⟨source, hfile, hparse⟩ := Template.parse_of_ofFile (loads_of_loadTemplate loaded).2
    exact ⟨source, hfile, by rw [startTags_of_parse hparse, List.length_map]⟩
  · cases h

end Command

namespace Markup

/-- Every document yields its elements in document order, each once, and then nothing more. For one that is read from a
source these are its start tags, which are counted by the check of a template in a file. -/
theorem visits_each_once :
    (∀ d : Document, (∀ n, asked d n = (preorder d)[n]?) ∧ d.elements = preorder d ∧ InDocumentOrder d d.elements) ∧
    (∀ source d, (Document.parse source).result = .ok d →
      d.elements.map Element.name = (startTags source).map Prod.fst) ∧
    ∀ files template a, (Command.check files template a).exit = 0 → ∃ source, files.readText template = .ok source ∧
      Command.check files template a =
        ⟨0, template ++ ": ok (" ++ toString (startTags source).length ++ " elements)\n", ""⟩ := by
  refine ⟨fun d => ?_, fun source d h => ?_, fun files template a h => Command.check_of_exit h⟩
  · have elements := elements_eq_preorder d
    refine ⟨fun n => ?_, elements, elements ▸ inDocumentOrder_preorder d⟩
    rw [← elements]
    exact asked_eq d n
  · rw [startTags_of_parse h, List.map_map]
    rfl

/-- A list in a file, with a void element and one that closes itself. -/
theorem visits_each_once_list :
    let source := "<ul><LI>a<br></LI><!-- <p> --><li t:if=TRUE><hr/>b</li></ul><p></p>"
    let files : Files := ⟨[(["list.html"], .file (Text.Utf8.encode source))]⟩
    (Command.check files "list.html" {}).exit = 0 ∧
      (∃ d, (Document.parse source).result = .ok d ∧ d.elements.map Element.name = ["ul", "li", "br", "li", "hr", "p"]) ∧
      Command.check files "list.html" {} = ⟨0, "list.html: ok (6 elements)\n", ""⟩ := by
  intro source files
  have names : (startTags source).map Prod.fst = ["ul", "li", "br", "li", "hr", "p"] := by decide +kernel
  have read : (Document.parse source).result.toBool = true := by decide +kernel
  have text : files.readText "list.html" = .ok source := by decide +kernel
  have exit : (Command.check files "list.html" {}).exit = 0 := by decide +kernel
  refine ⟨exit, ?_, ?_⟩
  · cases h : (Document.parse source).result with
    | error e => rw [h] at read; cases read
    | ok d => exact ⟨d, rfl, names ▸ visits_each_once.2.1 source d h⟩
  · obtain ⟨source', hfile, hcheck⟩ := visits_each_once.2.2 files "list.html" {} exit
    obtain rfl := Except.ok.inj (text.symm.trans hfile)
    have count : (startTags source).length = 6 := by
      rw [← List.length_map Prod.fst, names]
      rfl
    rw [hcheck, count]
    rfl

end Markup
end Stencil
