import Stencil.Proofs.Render.Scoping

/-! The names that a document takes from its scope. A loop variable is not one of them inside its loop, though the
source of the loop may be called the same. Scopes that agree on these names render the document alike. -/

namespace Stencil

namespace Config

variable (c : Config) (e : Markup.Element)

def conditionRoots : List String :=
  match (e.attr? c.conditionAttr).bind (Condition.read? c.pathLimit) with
  | some (.path p) => [p.root]
  | _ => []

/-- The free names of an element inside its loop: those of the text directive, or else of the children. -/
def bodyNames (children : List String) : List String :=
  match e.attr? c.textAttr with
  | some value => ((Path.read? c.pathLimit value).map Path.root).toList
  | none => children

def loopNames (body : List String) : List String :=
  match (e.attr? c.iterationAttr).bind (Iteration.read? c.pathLimit) with
  | some i => i.source.root :: body.filter (· ≠ i.variableName)
  | none => body

end Config

mutual

def Markup.Node.freeNames (c : Config) : Markup.Node → List String
  | .text _ => []
  | .element e children => c.conditionRoots e ++ c.loopNames e (c.bodyNames e (freeNames c children))

/-- The free names of a list of nodes. Literals and malformed directives have none. -/
def freeNames (c : Config) : List Markup.Node → List String
  | [] => []
  | n :: ns => n.freeNames c ++ freeNames c ns

end

namespace Environment

/-- Both environments have the same under each of the names. -/
def Agree (names : List String) (env env' : Environment) : Prop := ∀ n ∈ names, env n = env' n

theorem agree_append {names names' : List String} {env env' : Environment} :
    Agree (names ++ names') env env' ↔ Agree names env env' ∧ Agree names' env env' := by
  simp only [Agree, List.mem_append]
  exact ⟨fun h => ⟨fun n hn => h n (.inl hn), fun n hn => h n (.inr hn)⟩, fun h n hn => hn.elim (h.1 n) (h.2 n)⟩

theorem Agree.bind {names : List String} {x : String} {env env' : Environment}
    (h : Agree (names.filter (· ≠ x)) env env') (v : Value) : Agree names (env.bind x v) (env'.bind x v) := by
  intro n hn
  unfold Environment.bind
  by_cases hx : n = x
  · rw [if_pos hx, if_pos hx]
  · rw [if_neg hx, if_neg hx]
    exact h n (by simp [hn, hx])

theorem lookup_congr {env env' : Environment} {p : Path} (h : env p.root = env' p.root) :
    env.lookup p = env'.lookup p := by
  unfold lookup
  rw [h]

theorem elements_congr {env env' : Environment} {p : Path} (h : env p.root = env' p.root) :
    env.elements p = env'.elements p := by
  unfold elements
  rw [lookup_congr h]

end Environment

open Environment

namespace Meaning

variable {c : Config} {e : Markup.Element} {env env' : Environment}

theorem isShown_congr (h : Agree (c.conditionRoots e) env env') : isShown c env e = isShown c env' e := by
  unfold Config.conditionRoots at h
  unfold isShown
  cases hattr : e.attr? c.conditionAttr with
  | none => rfl
  | some value =>
    unfold Config.condition
    rw [hattr, Option.bind_some] at h
    dsimp only
    cases hread : Condition.read? c.pathLimit value with
    | none => rfl
    | some condition =>
      cases condition with
      | literal b => rfl
      | path p =>
        rw [hread] at h
        have root : env p.root = env' p.root := h _ (List.mem_singleton_self _)
        exact congrArg (fun x : Except Error Value => x.bind fun v => .ok v.isTruthy) (lookup_congr root)

theorem content_congr {value : String}
    (h : Agree ((Path.read? c.pathLimit value).map Path.root).toList env env') :
    content c env value = content c env' value := by
  unfold content Config.textPath
  cases hread : Path.read? c.pathLimit value with
  | none => rfl
  | some p =>
    rw [hread] at h
    have root : env p.root = env' p.root := h _ (List.mem_singleton_self _)
    exact congrArg (fun x : Except Error Value => x.bind fun v => .ok v.text) (lookup_congr root)

theorem once_congr {body : Environment → Outcome} {names : List String}
    (hbody : ∀ env env', Agree names env env' → body env = body env') (h : Agree (c.bodyNames e names) env env') :
    once c e body env = once c e body env' := by
  unfold Config.bodyNames at h
  unfold once
  cases hattr : e.attr? c.textAttr with
  | some value =>
    rw [hattr] at h
    dsimp only
    rw [content_congr h]
  | none =>
    rw [hattr] at h
    dsimp only
    rw [hbody env env' h]

theorem loop_congr {body : Environment → Outcome} {names : List String} {x : String}
    (hbody : ∀ env env', Agree names env env' → body env = body env')
    (h : Agree ((c.bodyNames e names).filter (· ≠ x)) env env') (items : List Value) :
    loop c e body env x items = loop c e body env' x items := by
  unfold loop
  induction items with
  | nil => rfl
  | cons item items ih => rw [List.foldr_cons, List.foldr_cons, ih, once_congr hbody (h.bind item)]

theorem element_congr {body : Environment → Outcome} {names : List String}
    (hbody : ∀ env env', Agree names env env' → body env = body env')
    (h : Agree (c.conditionRoots e ++ c.loopNames e (c.bodyNames e names)) env env') :
    element c e body env = element c e body env' := by
  obtain ⟨hcondition, hloop⟩ := agree_append.1 h
  unfold element
  rw [isShown_congr hcondition]
  congr 1
  funext shown
  cases shown with
  | false => rfl
  | true =>
    unfold Config.loopNames at hloop
    cases hattr : e.attr? c.iterationAttr with
    | none =>
      rw [hattr] at hloop
      exact once_congr hbody hloop
    | some value =>
      rw [hattr, Option.bind_some] at hloop
      unfold items Config.iteration
      simp only [Bool.not_true, Bool.false_eq_true, if_false]
      cases hread : Iteration.read? c.pathLimit value with
      | none => rfl
      | some i =>
        rw [hread] at hloop
        have root : env i.source.root = env' i.source.root := hloop _ List.mem_cons_self
        have inside : Agree ((c.bodyNames e names).filter (· ≠ i.variableName)) env env' :=
          fun n hn => hloop n (List.mem_cons_of_mem _ hn)
        change Outcome.given ((env.elements i.source).bind fun vs => .ok (i.variableName, vs)) _ =
          Outcome.given ((env'.elements i.source).bind fun vs => .ok (i.variableName, vs)) _
        rw [elements_congr root]
        cases env'.elements i.source with
        | error err => rfl
        | ok vs => exact loop_congr hbody inside vs

mutual

theorem node_congr (c : Config) : ∀ (n : Markup.Node) {env env' : Environment}, Agree (n.freeNames c) env env' →
    node c n env = node c n env'
  | .text _, _, _, _ => rfl
  | .element _ children, _, _, h => element_congr (fun _ _ => nodes_congr c children) h

theorem nodes_congr (c : Config) : ∀ (ns : List Markup.Node) {env env' : Environment}, Agree (freeNames c ns) env env' →
    nodes c ns env = nodes c ns env'
  | [], _, _, _ => rfl
  | n :: ns, env, env', h => by
    obtain ⟨first, rest⟩ := agree_append.1 h
    unfold nodes
    rw [node_congr c n first, nodes_congr c ns rest]

end

end Meaning

namespace Render

/-- Scopes that agree on the free names of a document render it to the same chunks and end alike, whatever they hold
under other names. -/
theorem document_congr_freeNames (c : Config) (d : Markup.Document) (s t : Scope)
    (h : ∀ n ∈ freeNames c d, s.get? n = t.get? n) {σ : Type} (sink : Sink σ) (out : σ) (log log' : Array Note) :
    ((document sink c d ⟨s, out, log⟩).1, (document sink c d ⟨s, out, log⟩).2.out) =
      ((document sink c d ⟨t, out, log'⟩).1, (document sink c d ⟨t, out, log'⟩).2.out) := by
  have means : Rendering.Means sink (document sink c d) (Meaning.nodes c d) := means_document d
  rw [(means ⟨s, out, log⟩).1, (means ⟨t, out, log'⟩).1]
  exact congrArg (Outcome.emit sink · out) (Meaning.nodes_congr c d h)

def itemList : Markup.Document :=
  [.element ⟨"li", [("t:each", some "x: $\x7bxs\x7d"), ("t:text", some "$\x7bx\x7d")], .endTag⟩ []]

theorem freeNames_itemList : freeNames {} itemList = ["xs"] := by
  decide +kernel

/-- Outside of the list it does not matter what `x` is. -/
theorem document_congr_itemList :
    let items := Value.list [.string "a", .string "b"]
    let s := (Scope.empty.put "xs" items).put "x" (.string "c")
    let t := (Scope.empty.put "y" .null).put "xs" items
    (∀ n ∈ freeNames {} itemList, s.get? n = t.get? n) ∧
      ((document Sink.text {} itemList ⟨s, "", #[]⟩).1, (document Sink.text {} itemList ⟨s, "", #[]⟩).2.out) =
        ((document Sink.text {} itemList ⟨t, "", #[]⟩).1, (document Sink.text {} itemList ⟨t, "", #[]⟩).2.out) := by
  intro items s t
  have agree : ∀ n ∈ freeNames {} itemList, s.get? n = t.get? n := by
    rw [freeNames_itemList]
    intro n hn
    obtain rfl := List.mem_singleton.1 hn
    simp [s, t, Scope.get?_put]
  exact ⟨agree, document_congr_freeNames {} itemList s t agree Sink.text "" #[] #[]⟩

end Render

end Stencil
