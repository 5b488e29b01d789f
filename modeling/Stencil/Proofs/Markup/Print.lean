import Stencil.Proofs.Markup.Balance
import Stencil.Proofs.Render.Scoping

/-! Trees as markup. A tree is printed as it is; rendering prints it tidied up, that is with its texts trimmed, the
blank ones dropped and adjacent ones joined, as long as it has no directives. -/

namespace Stencil.Markup

/-- Decoded text as markup. -/
def escaped (t : List Char) : List Char := t.flatMap fun c => (Follower.escape c).toList

def attrChars (a : String × Option String) : List Char := (Render.attrText a.1 a.2).toList

def closer (selfClosing : Bool) : List Char := if selfClosing then ['/', '>'] else ['>']

def TokenKind.print : TokenKind → List Char
  | .text s => s.toList
  | .startTag name attrs selfClosing => '<' :: name.toList ++ attrs.flatMap attrChars ++ closer selfClosing
  | .endTag name => '<' :: '/' :: name.toList ++ ['>']
  | .eof => []

def printKinds (ks : List TokenKind) : List Char := ks.flatMap TokenKind.print

theorem printKinds_cons (k : TokenKind) (ks : List TokenKind) : printKinds (k :: ks) = k.print ++ printKinds ks := rfl

def print (ns : List Node) : List Char := printKinds (kinds ns)

/-- Puts text before nodes, and joins it to the text that they begin with. -/
def joinText (s : String) : List Node → List Node
  | .text t :: ns => .text (s ++ t) :: ns
  | ns => .text s :: ns

def joinOnto : Node → List Node → List Node
  | .text s, ns => if s = "" then ns else joinText s ns
  | .element e children, ns => .element e children :: ns

mutual

def Node.tidy : Node → Node
  | .text content => .text (String.ofList (Text.trim content.toList))
  | .element e children => .element e (tidy children)

/-- The nodes with their texts trimmed, blank texts dropped, and adjacent texts joined. -/
def tidy : List Node → List Node
  | [] => []
  | n :: ns => joinOnto n.tidy (tidy ns)

end

theorem print_cons (n : Node) (ns : List Node) : print (n :: ns) = printKinds n.kinds ++ print ns := by
  simp [print, printKinds, kinds]

theorem print_joinText (s : String) (ns : List Node) : print (joinText s ns) = s.toList ++ print ns := by
  have single : ∀ ns, print (.text s :: ns) = s.toList ++ print ns := by
    intro ns
    rw [print_cons]
    simp [Node.kinds, printKinds, TokenKind.print]
  cases ns with
  | nil => exact single []
  | cons n ns =>
    cases n with
    | text t => simp [joinText, print_cons, Node.kinds, printKinds, TokenKind.print]
    | element e children => exact single _

theorem print_joinOnto (n : Node) (ns : List Node) : print (joinOnto n ns) = printKinds n.kinds ++ print ns := by
  cases n with
  | element e children => exact print_cons _ ns
  | text s =>
    by_cases h : s = ""
    · simp [joinOnto, Node.kinds, printKinds, TokenKind.print, h]
    · rw [joinOnto, if_neg h, print_joinText]
      simp [Node.kinds, printKinds, TokenKind.print]

/-- No element has an attribute that is a directive. -/
def NoDirectives (c : Config) (d : Document) : Prop := ∀ e ∈ d.elements, ∀ a ∈ e.attrs, c.isDirective a.1 = false

theorem visit_append (as bs : List Node) : visit (as ++ bs) = visit as ++ visit bs := by
  fun_induction visit as with
  | case1 => rfl
  | case2 s stack ih => rw [List.cons_append, visit, ih]
  | case3 e children stack ih =>
    rw [List.cons_append, visit, ← List.append_assoc, ih, List.cons_append]

theorem visit_element (e : Element) (children ns : List Node) :
    visit (.element e children :: ns) = e :: (visit children ++ visit ns) := by
  rw [visit, visit_append]

theorem noDirectives_text {c : Config} {s : String} {ns : List Node} :
    NoDirectives c (.text s :: ns) ↔ NoDirectives c ns := by
  unfold NoDirectives Document.elements
  rw [visit]

theorem noDirectives_element {c : Config} {e : Element} {children ns : List Node} :
    NoDirectives c (.element e children :: ns) ↔
      (∀ a ∈ e.attrs, c.isDirective a.1 = false) ∧ NoDirectives c children ∧ NoDirectives c ns := by
  unfold NoDirectives Document.elements
  rw [visit_element]
  simp only [List.mem_cons, List.mem_append, forall_eq_or_imp]
  constructor
  · rintro ⟨h, hrest⟩
    exact ⟨h, fun e he => hrest e (.inl he), fun e he => hrest e (.inr he)⟩
  · rintro ⟨h, hc, hn⟩
    exact ⟨h, fun e he => he.elim (hc e) (hn e)⟩

theorem attr?_of_noDirective {e : Element} {name : String} (h : ∀ a ∈ e.attrs, a.1 ≠ name) :
    e.attr? name = none := by
  have none : ∀ attrs : Named (Option String), (∀ a ∈ attrs, a.1 ≠ name) → attrs.get? name = none := by
    intro attrs
    induction attrs with
    | nil => exact fun _ => rfl
    | cons a attrs ih =>
      intro h
      rw [Named.get?_cons, if_neg (Ne.symm (h a List.mem_cons_self)), ih fun b hb => h b (List.mem_cons_of_mem _ hb)]
  unfold Element.attr?
  rw [none e.attrs h]
  rfl

end Stencil.Markup

namespace Stencil

open Markup

def Outcome.text (o : Outcome) : List Char := (String.join o.chunks).toList

def Outcome.Prints (o : Outcome) (t : List Char) : Prop := o.result = .ok () ∧ o.text = t

namespace Outcome

theorem prints_done : done.Prints [] := ⟨rfl, by simp [text]⟩

theorem prints_chunk (chunk : String) : Prints ⟨[chunk], .ok ()⟩ chunk.toList := ⟨rfl, by simp [text]⟩

theorem Prints.andThen {a b : Outcome} {s t : List Char} (ha : a.Prints s) (hb : b.Prints t) :
    (a.andThen b).Prints (s ++ t) := by
  obtain ⟨ha, rfl⟩ := ha
  obtain ⟨hb, rfl⟩ := hb
  rw [andThen_ok ha]
  exact ⟨hb, by simp [text, String.toList_append]⟩

end Outcome

namespace Meaning

variable {c : Config}

theorem prints_line (hl : c.lineBreaks = false) (chunk : String) : (line c chunk).Prints chunk.toList := by
  unfold line
  rw [hl]
  exact Outcome.prints_chunk chunk

theorem prints_text (hl : c.lineBreaks = false) (content : String) :
    (text c content).Prints (printKinds (Node.text content).tidy.kinds) := by
  rw [Node.tidy, Node.kinds, printKinds, List.flatMap_singleton, TokenKind.print]
  unfold text
  split
  · next h =>
    rw [Text.trim_eq_nil_of_blank (List.all_eq_true.1 h)]
    exact Outcome.prints_done
  · exact prints_line hl _

theorem shownAttrs_of_noDirective {attrs : List (String × Option String)}
    (h : ∀ a ∈ attrs, c.isDirective a.1 = false) :
    (String.join (shownAttrs c attrs)).toList = attrs.flatMap attrChars := by
  induction attrs with
  | nil => simp [shownAttrs]
  | cons a attrs ih =>
    obtain ⟨name, value⟩ := a
    have hname : c.isDirective name = false := h (name, value) List.mem_cons_self
    simp only [shownAttrs, hname, Bool.false_eq_true, if_false, String.join_cons, String.toList_append,
      List.flatMap_cons, ih fun a ha => h a (List.mem_cons_of_mem _ ha), Render.attr_eq]
    rfl

theorem prints_openTag (hl : c.lineBreaks = false) {e : Element} (h : ∀ a ∈ e.attrs, c.isDirective a.1 = false)
    (selfClosing : Bool) : (openTag c e (String.ofList (closer selfClosing))).Prints
      (TokenKind.startTag e.name e.attrs selfClosing).print := by
  have hline := prints_line hl ("<" ++ e.name ++ String.join (shownAttrs c e.attrs) ++ String.ofList (closer selfClosing))
  rw [openTag]
  simpa [String.toList_append, shownAttrs_of_noDirective h, TokenKind.print] using hline

theorem prints_closeTag (e : Element) : (closeTag e).Prints (TokenKind.endTag e.name).print := by
  have hchunk := Outcome.prints_chunk ("</" ++ e.name ++ ">")
  rw [closeTag]
  simpa [String.toList_append, TokenKind.print] using hchunk

/-- Without directives an element is shown once, whatever the environment. -/
theorem element_of_noDirective {e : Element} (h : ∀ a ∈ e.attrs, c.isDirective a.1 = false)
    (body : Environment → Outcome) (env : Environment) :
    element c e body env = match e.closing with
      | .selfClosing => openTag c e "/>"
      | .void => openTag c e ">"
      | .endTag => (openTag c e ">").andThen ((body env).andThen (closeTag e)) := by
  have absent : ∀ name, c.isDirective name = true → e.attr? name = none := by
    intro name hname
    apply attr?_of_noDirective
    intro a ha heq
    rw [← heq, h a ha] at hname
    exact Bool.noConfusion hname
  have hc : e.attr? c.conditionAttr = none := absent _ (by simp [Config.isDirective])
  have hi : e.attr? c.iterationAttr = none := absent _ (by simp [Config.isDirective])
  have ht : e.attr? c.textAttr = none := absent _ (by simp [Config.isDirective])
  unfold element isShown once
  rw [hc, hi, ht]
  rfl

theorem prints_element (hl : c.lineBreaks = false) {e : Element} (ha : ∀ a ∈ e.attrs, c.isDirective a.1 = false)
    {children : List Node} {env : Environment} (hchildren : (nodes c children env).Prints (print (tidy children))) :
    (node c (.element e children) env).Prints (printKinds (Node.element e children).tidy.kinds) := by
  rw [node, element_of_noDirective ha, Node.tidy, Node.kinds]
  rcases e.closing with _ | _ | _
  · have hall := (prints_openTag hl ha false).andThen (hchildren.andThen (prints_closeTag e))
    simpa [printKinds, print, closer] using hall
  · simpa [printKinds, closer] using prints_openTag hl ha true
  · simpa [printKinds, closer] using prints_openTag hl ha false

/-- Without directives, and without line breaks, nodes mean their markup when they are tidied up. -/
theorem prints_nodes (hl : c.lineBreaks = false) {ns : List Node} (env : Environment) (h : NoDirectives c ns) :
    (nodes c ns env).Prints (print (tidy ns)) := by
  induction ns using nodes_induction with
  | nil => exact Outcome.prints_done
  | text s ns ih =>
    rw [nodes, tidy, print_joinOnto]
    exact (prints_text hl s).andThen (ih (noDirectives_text.1 h))
  | element e children ns ihc ih =>
    obtain ⟨ha, hchildren, hns⟩ := noDirectives_element.1 h
    rw [nodes, tidy, print_joinOnto]
    exact (prints_element hl ha (ihc hchildren)).andThen (ih hns)

end Meaning

namespace Render

def toText (c : Config) (d : Document) (scope : Scope) : Except Error Unit × String :=
  let (result, after) := document Sink.text c d ⟨scope, "", #[]⟩
  (result, after.out)

/-- Rendering a document without directives prints it tidied up. -/
theorem toText_of_noDirectives {c : Config} (hl : c.lineBreaks = false) {d : Document} (h : NoDirectives c d)
    (scope : Scope) : toText c d scope = (.ok (), String.ofList (print (tidy d))) := by
  obtain ⟨hrun, -⟩ := (means_document d : Rendering.Means Sink.text (document Sink.text c d) (Meaning.nodes c d))
    ⟨scope, "", #[]⟩
  obtain ⟨hr, ht⟩ := Meaning.prints_nodes hl scope.get? h
  rw [Outcome.emit_text] at hrun
  change toText c d scope = _ at hrun
  rw [hrun, hr, ← ht, Outcome.text, String.ofList_toList]
  simp

end Render
end Stencil
