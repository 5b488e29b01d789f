import Stencil.Proofs.Directive.Leading
import Stencil.Proofs.Markup.Preorder

/-! What can fail in the meaning of a document: a lookup, or a directive whose value is outside its grammar. -/

namespace Stencil

open Markup

/-- The failures of looking a path up. -/
def Error.IsLookup : Error → Prop
  | unbound .. | noSuchProperty .. | notIterable .. => True
  | _ => False

/-- The directives of an element, in the order in which they are looked at. -/
inductive Directive
  | condition
  | iteration
  | text

namespace Directive

variable {c : Config} {d : Directive} {value : String} {err : Error}

def attr (c : Config) : Directive → String
  | condition => c.conditionAttr
  | iteration => c.iterationAttr
  | text => c.textAttr

def accepts (c : Config) (value : String) : Directive → Bool
  | condition => (Condition.read? c.pathLimit value).isSome
  | iteration => (Iteration.read? c.pathLimit value).isSome
  | text => (Path.read? c.pathLimit value).isSome

def read (c : Config) (d : Directive) (value : String) : Except Error Unit :=
  match d with
  | condition => (c.condition value).map fun _ => ()
  | iteration => (c.iteration value).map fun _ => ()
  | text => (c.textPath value).map fun _ => ()

def evaluate (c : Config) (d : Directive) (scope : Scope) (value : String) : Except Error Unit :=
  match d with
  | condition => (c.holds scope value).result.map fun _ => ()
  | iteration => (c.items scope value).result.map fun _ => ()
  | text => (c.textOf scope value).result.map fun _ => ()

theorem map_parsed {α : Type} (attr value : String) (x : Option α) :
    (Config.parsed attr value x).map (fun _ => ()) = if x.isSome then .ok () else .error (.directiveSyntax attr value) := by
  cases x <;> rfl

theorem read_eq (c : Config) (d : Directive) (value : String) :
    d.read c value = if d.accepts c value then .ok () else .error (.directiveSyntax (d.attr c) value) := by
  cases d <;> exact map_parsed _ _ _

/-- What cannot be read fails in every scope, and always in the same way. -/
theorem evaluate_of_not_accepts (h : d.accepts c value = false) (scope : Scope) :
    d.evaluate c scope value = .error (.directiveSyntax (d.attr c) value) := by
  have unread : ∀ {α : Type} (attr : String) (x : Option α), x.isSome = false →
      Config.parsed attr value x = .error (.directiveSyntax attr value) := by
    rintro α attr (_ | a) hx
    · rfl
    · cases hx
  cases d with
  | condition => rw [evaluate, Config.result_holds, Config.condition, unread _ _ h]; rfl
  | iteration => rw [evaluate, Config.result_items, Meaning.items, Config.iteration, unread _ _ h]; rfl
  | text => rw [evaluate, Config.result_textOf, Meaning.content, Config.textPath, unread _ _ h]; rfl

end Directive

section Bind

variable {ε α β : Type} {x : Except ε α} {f : α → Except ε β}

theorem error_of_bind {err : ε} (h : (x >>= f) = .error err) :
    x = .error err ∨ ∃ a, x = .ok a ∧ f a = .error err := by
  cases x with
  | error e =>
    obtain rfl : e = err := Except.error.inj h
    exact .inl rfl
  | ok a => exact .inr ⟨a, rfl, h⟩

/-- A step that is followed by one that cannot fail. -/
theorem error_of_bind_ok {g : α → β} {err : ε} (h : (x >>= fun a => .ok (g a)) = .error err) : x = .error err := by
  rcases error_of_bind h with hx | ⟨a, -, hg⟩
  · exact hx
  · cases hg

theorem ok_of_bind {b : β} (h : (x >>= f) = .ok b) : ∃ a, x = .ok a ∧ f a = .ok b := by
  cases x with
  | error e => cases h
  | ok a => exact ⟨a, rfl, h⟩

end Bind

/-! ### Lookups -/

namespace Environment

variable {env : Environment} {p : Path} {err : Error}

theorem isLookup_lookup (h : env.lookup p = .error err) : err.IsLookup := by
  cases lookup_eq_iff.1 h with
  | unbound => trivial
  | missing => trivial

theorem isLookup_elements (h : env.elements p = .error err) : err.IsLookup := by
  cases elements_eq_iff.1 h with
  | failed leads => exact isLookup_lookup (lookup_of_leads leads)
  | notIterable => trivial

end Environment

/-! ### Meanings -/

namespace Outcome

/-- The failure of an outcome is of a kind, if it has one. -/
def FailsWith (P : Error → Prop) (o : Outcome) : Prop := ∀ err, o.result = .error err → P err

variable {P : Error → Prop}

theorem failsWith_ok {o : Outcome} (h : o.result = .ok ()) : o.FailsWith P := by
  intro err herr
  rw [h] at herr
  cases herr

theorem FailsWith.andThen {a b : Outcome} (ha : a.FailsWith P) (hb : b.FailsWith P) : (a.andThen b).FailsWith P := by
  cases h : a.result with
  | ok u =>
    rw [andThen_ok h]
    exact hb
  | error e =>
    rw [andThen_error h]
    exact ha

theorem failsWith_given {α : Type} {x : Except Error α} {f : α → Outcome} (hx : ∀ err, x = .error err → P err)
    (hf : ∀ a, (f a).FailsWith P) : (given x f).FailsWith P := by
  cases x with
  | ok a => exact hf a
  | error e =>
    rintro _ ⟨⟩
    exact hx e rfl

end Outcome

namespace Meaning

variable {P : Error → Prop} {c : Config} {e : Element}

def ReadsWith (P : Error → Prop) (c : Config) (e : Element) : Prop :=
  ∀ (d : Directive) (value : String), e.attr? (d.attr c) = some value → ∀ err, d.read c value = .error err → P err

/-- A directive of an element fails as its value does when it is read, or as what is written there does. -/
theorem fails_directive {α β : Type} {x : Except Error α} {f : α → Except Error β}
    (lookup : ∀ err : Error, err.IsLookup → P err) (h : ReadsWith P c e) (d : Directive) {value : String}
    (hvalue : e.attr? (d.attr c) = some value) (hx : d.read c value = x.map fun _ => ())
    (hf : ∀ a err, f a = .error err → err.IsLookup) : ∀ err, (x >>= f) = .error err → P err := by
  intro err herr
  rcases error_of_bind herr with hfail | ⟨a, -, hfail⟩
  · have unread : d.read c value = .error err := by
      rw [hx, hfail]
      rfl
    exact h d value hvalue err unread
  · exact lookup err (hf a err hfail)

theorem fails_isShown (lookup : ∀ err : Error, err.IsLookup → P err) (h : ReadsWith P c e) (env : Environment) :
    ∀ err, isShown c env e = .error err → P err := by
  intro err herr
  unfold isShown at herr
  split at herr
  · cases herr
  · next value hvalue =>
    refine fails_directive lookup h .condition hvalue rfl (fun x err hx => ?_) err herr
    cases x with
    | literal b => cases hx
    | path p => exact Environment.isLookup_lookup (error_of_bind_ok hx)

theorem fails_items (lookup : ∀ err : Error, err.IsLookup → P err) (h : ReadsWith P c e) (env : Environment)
    {value : String} (hvalue : e.attr? c.iterationAttr = some value) :
    ∀ err, items c env value = .error err → P err :=
  fails_directive lookup h .iteration hvalue rfl fun _ _ hi => Environment.isLookup_elements (error_of_bind_ok hi)

theorem fails_content (lookup : ∀ err : Error, err.IsLookup → P err) (h : ReadsWith P c e) (env : Environment)
    {value : String} (hvalue : e.attr? c.textAttr = some value) :
    ∀ err, content c env value = .error err → P err :=
  fails_directive lookup h .text hvalue rfl fun _ _ hp => Environment.isLookup_lookup (error_of_bind_ok hp)

theorem failsWith_line (chunk : String) : (line c chunk).FailsWith P := Outcome.failsWith_ok rfl

theorem failsWith_once (lookup : ∀ err : Error, err.IsLookup → P err) (h : ReadsWith P c e)
    {body : Environment → Outcome} (hbody : ∀ env, (body env).FailsWith P) (env : Environment) :
    (once c e body env).FailsWith P := by
  have close : (closeTag e).FailsWith P := Outcome.failsWith_ok rfl
  unfold once
  split
  · next value hvalue =>
    refine Outcome.failsWith_given (fails_content lookup h env hvalue) fun s => ?_
    exact (failsWith_line _).andThen ((failsWith_line s).andThen close)
  · split
    · exact failsWith_line _
    · exact failsWith_line _
    · exact (failsWith_line _).andThen ((hbody env).andThen close)

theorem failsWith_loop (lookup : ∀ err : Error, err.IsLookup → P err) (h : ReadsWith P c e)
    {body : Environment → Outcome} (hbody : ∀ env, (body env).FailsWith P) (env : Environment) (x : String)
    (vs : List Value) : (loop c e body env x vs).FailsWith P := by
  unfold loop
  induction vs with
  | nil => exact Outcome.failsWith_ok rfl
  | cons v vs ih => exact (failsWith_once lookup h hbody _).andThen ih

theorem failsWith_element (lookup : ∀ err : Error, err.IsLookup → P err) (h : ReadsWith P c e)
    {body : Environment → Outcome} (hbody : ∀ env, (body env).FailsWith P) (env : Environment) :
    (element c e body env).FailsWith P := by
  unfold element
  refine Outcome.failsWith_given (fails_isShown lookup h env) fun shown => ?_
  split
  · exact Outcome.failsWith_ok rfl
  · split
    · next value hvalue =>
      exact Outcome.failsWith_given (fails_items lookup h env hvalue) fun x => failsWith_loop lookup h hbody env _ _
    · exact failsWith_once lookup h hbody env

/-- A document fails as its lookups do, or as one of its directives that cannot be read. -/
theorem failsWith_nodes (lookup : ∀ err : Error, err.IsLookup → P err) {ns : List Node}
    (h : ∀ e ∈ preorder ns, ReadsWith P c e) (env : Environment) : (nodes c ns env).FailsWith P := by
  induction ns using nodes_induction generalizing env with
  | nil => exact Outcome.failsWith_ok rfl
  | text s ns ih =>
    have shown : (text c s).FailsWith P := by
      unfold text
      split <;> exact Outcome.failsWith_ok rfl
    exact shown.andThen (ih h env)
  | element e children ns ihc ih =>
    rw [preorder, Node.preorder, List.cons_append, List.forall_mem_cons, List.forall_mem_append] at h
    obtain ⟨he, hchildren, hns⟩ := h
    exact (failsWith_element lookup he (ihc hchildren) env).andThen (ih hns env)

end Meaning
end Stencil
