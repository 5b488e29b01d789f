import Stencil.Proofs.Markup.Balance
import Stencil.Proofs.Named
import Stencil.Proofs.Render.Scoping

/-! Parts of a document that no scope brings to the output: elements whose condition is the word `false`, conditions that
are the word `true`, and children in whose place a text directive stands or that have no end tag after them. A document
without them means the same, also where they hold directives that would fail. -/

namespace Stencil

open Markup

/-! ### Dead parts -/

namespace Config

variable (c : Config) (e : Element)

/-- Whether the condition of an element is the literal `b`, in any case of its letters. -/
def conditionIs (b : Bool) : Bool :=
  (e.attr? c.conditionAttr).any fun value => value.toList.map Char.toLower = (toString b).toList

/-- The element without its condition, and with its other attributes in their order. -/
def withoutCondition : Element := { e with attrs := e.attrs.filter fun a => a.1 ≠ c.conditionAttr }

def settle : Element := if c.conditionIs e true then c.withoutCondition e else e

/-- Whether the children of an element are rendered when it is. -/
def showsChildren : Bool := (e.attr? c.textAttr).isNone && e.closing = .endTag

end Config

mutual

def Markup.Node.prune (c : Config) : Node → List Node
  | .text content => [.text content]
  | .element e children =>
    if c.conditionIs e false then []
    else [.element (c.settle e) (if c.showsChildren e then prune c children else [])]

def prune (c : Config) : List Node → List Node
  | [] => []
  | n :: ns => n.prune c ++ prune c ns

end

mutual

def Markup.Node.IsPruned (c : Config) : Node → Prop
  | .text _ => True
  | .element e children => (c.conditionIs e false = false ∧ c.conditionIs e true = false) ∧
      (c.showsChildren e = false → children = []) ∧ IsPruned c children

/-- The nodes have no dead part. -/
def IsPruned (c : Config) : List Node → Prop
  | [] => True
  | n :: ns => n.IsPruned c ∧ IsPruned c ns

end

/-! ### Attributes -/

namespace Config

variable {c : Config} {e : Element}

theorem attr?_withoutCondition (c : Config) (e : Element) (name : String) :
    (c.withoutCondition e).attr? name = if name = c.conditionAttr then none else e.attr? name := by
  unfold Element.attr? withoutCondition
  rw [Named.get?_filter_ne]
  split <;> rfl

theorem condition_withoutCondition (c : Config) (e : Element) :
    (c.withoutCondition e).attr? c.conditionAttr = none := by
  rw [attr?_withoutCondition, if_pos rfl]

theorem ne_of_validate (h : c.validate = .ok ()) :
    c.conditionAttr ≠ c.iterationAttr ∧ c.conditionAttr ≠ c.textAttr ∧ c.iterationAttr ≠ c.textAttr := by
  unfold validate at h
  split at h
  · cases h
  · split at h
    · cases h
    · next hdistinct => simpa [hasDistinctAttrs, and_assoc] using hdistinct

end Config

/-! ### Meanings -/

namespace Outcome

theorem done_andThen (o : Outcome) : done.andThen o = o := rfl

theorem andThen_done (o : Outcome) : o.andThen done = o := by
  rcases h : o.result with err | ⟨⟩
  · exact andThen_error h done
  · rw [andThen_ok h, chunks_done, List.append_nil, ← show o.result = done.result from h]

theorem andThen_assoc (x y z : Outcome) : (x.andThen y).andThen z = x.andThen (y.andThen z) := by
  cases hx : x.result with
  | error err => rw [andThen_error hx, andThen_error hx, andThen_error hx]
  | ok u =>
    rw [andThen_ok hx, andThen_ok hx]
    rcases hy : y.result with err | ⟨⟩
    · rw [andThen_error (a := y) hy, andThen_error rfl, hy]
    · rw [andThen_ok (a := y) hy, andThen_ok rfl, List.append_assoc]

end Outcome

namespace Meaning

variable {c : Config} {e : Element}

theorem nodes_append (as bs : List Node) (env : Environment) :
    nodes c (as ++ bs) env = (nodes c as env).andThen (nodes c bs env) := by
  induction as with
  | nil => rw [List.nil_append, nodes, Outcome.done_andThen]
  | cons n ns ih => rw [List.cons_append, nodes, nodes, ih, Outcome.andThen_assoc]

theorem isShown_of_conditionIs {b : Bool} (h : c.conditionIs e b) (env : Environment) : isShown c env e = .ok b := by
  unfold Config.conditionIs at h
  unfold isShown
  cases hattr : e.attr? c.conditionAttr with
  | none => rw [hattr] at h; cases h
  | some value =>
    rw [hattr, Option.any_some, decide_eq_true_eq] at h
    have read : Condition.read? c.pathLimit value = some (.literal b) := by
      unfold Condition.read?
      cases b with
      | true => exact if_pos h
      | false => exact (if_neg (by rw [h]; decide)).trans (if_pos h)
    dsimp only
    rw [Config.condition, read]
    rfl

/-- Only elements of which the children are rendered depend on their children. -/
theorem once_of_not_showsChildren (h : c.showsChildren e = false) (body body' : Environment → Outcome) :
    once c e body = once c e body' := by
  funext env
  unfold once
  unfold Config.showsChildren at h
  cases htext : e.attr? c.textAttr with
  | some value => rfl
  | none =>
    cases hclosing : e.closing with
    | endTag => rw [htext, hclosing] at h; cases h
    | selfClosing => rfl
    | void => rfl

theorem element_of_not_showsChildren (h : c.showsChildren e = false) (body body' : Environment → Outcome) :
    element c e body = element c e body' := by
  have same := once_of_not_showsChildren h body body'
  unfold element loop
  rw [same]

theorem shownAttrs_withoutCondition (c : Config) (attrs : List (String × Option String)) :
    shownAttrs c (attrs.filter fun a => a.1 ≠ c.conditionAttr) = shownAttrs c attrs := by
  induction attrs with
  | nil => rfl
  | cons a attrs ih =>
    obtain ⟨name, value⟩ := a
    by_cases h : name = c.conditionAttr
    · have directive : c.isDirective name = true := by simp [Config.isDirective, h]
      rw [List.filter_cons_of_neg (by simpa using h), ih, shownAttrs, if_pos directive]
    · rw [List.filter_cons_of_pos (by simpa using h), shownAttrs, shownAttrs, ih]

theorem once_withoutCondition (htext : c.conditionAttr ≠ c.textAttr) (body : Environment → Outcome) :
    once c (c.withoutCondition e) body = once c e body := by
  have tag : ∀ terminator, openTag c (c.withoutCondition e) terminator = openTag c e terminator := by
    intro terminator
    unfold openTag Config.withoutCondition
    rw [shownAttrs_withoutCondition]
  funext env
  unfold once
  rw [Config.attr?_withoutCondition, if_neg htext.symm]
  simp only [tag]
  rfl

/-- A condition that always holds can be left out, as long as the other directives are other attributes. -/
theorem element_withoutCondition (hvalid : c.validate = .ok ()) (h : c.conditionIs e true)
    (body : Environment → Outcome) : element c (c.withoutCondition e) body = element c e body := by
  obtain ⟨hiteration, htext, -⟩ := Config.ne_of_validate hvalid
  have shown : ∀ env, isShown c env (c.withoutCondition e) = isShown c env e := by
    intro env
    rw [isShown_of_conditionIs h, isShown, Config.condition_withoutCondition]
  funext env
  unfold element loop
  rw [shown, Config.attr?_withoutCondition, if_neg hiteration.symm, once_withoutCondition htext]

theorem element_settle (hvalid : c.validate = .ok ()) (e : Element) (body : Environment → Outcome) :
    element c (c.settle e) body = element c e body := by
  unfold Config.settle
  split
  · next h => exact element_withoutCondition hvalid h body
  · rfl

theorem element_of_conditionIs_false (h : c.conditionIs e false) (body : Environment → Outcome) (env : Environment) :
    element c e body env = .done := by
  unfold element
  rw [isShown_of_conditionIs h]
  rfl

theorem nodes_prune (hvalid : c.validate = .ok ()) (ns : List Node) : nodes c (prune c ns) = nodes c ns := by
  induction ns using nodes_induction with
  | nil => rfl
  | text content ns ih =>
    funext env
    rw [prune, Node.prune, List.cons_append, List.nil_append, nodes, nodes, ih]
  | element e children ns ihc ih =>
    funext env
    rw [prune, nodes_append, ih, nodes]
    congr 1
    unfold Node.prune
    by_cases hfalse : c.conditionIs e false
    · rw [if_pos hfalse, nodes, node, element_of_conditionIs_false hfalse]
    · have body : element c e (nodes c (if c.showsChildren e then prune c children else [])) =
          element c e (nodes c children) := by
        cases hshows : c.showsChildren e with
        | true => rw [if_pos rfl, ihc]
        | false => exact element_of_not_showsChildren hshows _ _
      rw [if_neg hfalse, nodes, nodes, node, node, element_settle hvalid, body, Outcome.andThen_done]

end Meaning

/-! ### Pruned documents -/

theorem isPruned_append {c : Config} {as bs : List Node} (ha : IsPruned c as) (hb : IsPruned c bs) :
    IsPruned c (as ++ bs) := by
  induction as with
  | nil => exact hb
  | cons n ns ih => exact ⟨ha.1, ih ha.2⟩

theorem Config.conditionIs_settle {c : Config} {e : Element} (h : c.conditionIs e false = false) :
    c.conditionIs (c.settle e) false = false ∧ c.conditionIs (c.settle e) true = false := by
  have absent : ∀ b, c.conditionIs (c.withoutCondition e) b = false := by
    intro b
    unfold conditionIs
    rw [condition_withoutCondition]
    rfl
  unfold settle
  cases htrue : c.conditionIs e true with
  | true => exact ⟨absent false, absent true⟩
  | false => exact ⟨h, htrue⟩

theorem Config.showsChildren_settle {c : Config} (hvalid : c.validate = .ok ()) (e : Element) :
    c.showsChildren (c.settle e) = c.showsChildren e := by
  unfold settle
  split
  · have htext := (ne_of_validate hvalid).2.1
    unfold showsChildren
    rw [attr?_withoutCondition, if_neg htext.symm]
    rfl
  · rfl

theorem isPruned_prune {c : Config} (hvalid : c.validate = .ok ()) (ns : List Node) : IsPruned c (prune c ns) := by
  induction ns using nodes_induction with
  | nil => trivial
  | text content ns ih => exact ⟨trivial, ih⟩
  | element e children ns ihc ih =>
    rw [prune]
    refine isPruned_append ?_ ih
    unfold Node.prune
    by_cases hfalse : c.conditionIs e false
    · rw [if_pos hfalse]
      trivial
    · rw [if_neg hfalse]
      refine ⟨⟨Config.conditionIs_settle (by simpa using hfalse), fun hshows => ?_, ?_⟩, trivial⟩
      · rw [Config.showsChildren_settle hvalid] at hshows
        rw [hshows]
        rfl
      · split
        · exact ihc
        · trivial

namespace Render

/-- A document without its dead parts is rendered to the same chunks, ends alike, and leaves the scope the same: whatever
the sink and the scope are, and whatever the dead parts hold. -/
theorem document_prune {c : Config} (hvalid : c.validate = .ok ()) (d : Document) :
    IsPruned c (prune c d) ∧ ∀ (σ : Type) (sink : Sink σ) (scope : Scope) (out : σ) (log : Array Note),
      let pruned := document sink c (prune c d) ⟨scope, out, log⟩
      let whole := document sink c d ⟨scope, out, log⟩
      (pruned.1, pruned.2.out) = (whole.1, whole.2.out) ∧ pruned.2.scope.get? = whole.2.scope.get? := by
  refine ⟨isPruned_prune hvalid d, fun σ sink scope out log => ?_⟩
  have means : ∀ d : Document, Rendering.Means sink (document sink c d) (Meaning.nodes c d) := means_document
  obtain ⟨hpruned, hscope⟩ := means (prune c d) ⟨scope, out, log⟩
  obtain ⟨hwhole, hscope'⟩ := means d ⟨scope, out, log⟩
  dsimp only at hscope hscope' ⊢
  rw [hpruned, hwhole, hscope, hscope', Meaning.nodes_prune hvalid]
  exact ⟨rfl, rfl⟩

/-- A list with an element that is never shown, and one with children that a text replaces. -/
def draft : Document :=
  [.element ⟨"ul", [("t:if", some "TRUE"), ("class", some "names"), ("t:each", some "x: $\x7bxs\x7d")], .endTag⟩
    [.element ⟨"li", [("t:text", some "oops"), ("t:if", some "False")], .endTag⟩ [],
      .element ⟨"li", [("t:text", some "$\x7bx\x7d")], .endTag⟩ [.element ⟨"b", [("t:each", none)], .endTag⟩ []]]]

def fairCopy : Document :=
  [.element ⟨"ul", [("class", some "names"), ("t:each", some "x: $\x7bxs\x7d")], .endTag⟩
    [.element ⟨"li", [("t:text", some "$\x7bx\x7d")], .endTag⟩ []]]

/-- The list is rendered without either, though the one holds a text directive and the other an iteration that cannot be
read. -/
theorem document_prune_draft :
    ({} : Config).validate = .ok () ∧ prune {} draft = fairCopy ∧
      let scope := Scope.empty.put "xs" (.list [.string "a", .string "b"])
      let pruned := document Sink.text {} fairCopy ⟨scope, "", #[]⟩
      let whole := document Sink.text {} draft ⟨scope, "", #[]⟩
      (pruned.1, pruned.2.out) = (whole.1, whole.2.out) ∧ pruned.2.scope.get? = whole.2.scope.get? := by
  have valid : ({} : Config).validate = .ok () := by rfl
  have pruned : prune {} draft = fairCopy := by rfl
  refine ⟨valid, pruned, ?_⟩
  intro scope
  rw [← pruned]
  exact (document_prune valid draft).2 String Sink.text scope "" #[]

end Render

end Stencil
