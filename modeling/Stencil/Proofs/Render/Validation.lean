import Stencil.Proofs.Render.Failures
import Stencil.Template

/-! Checking a template finds every directive that can fail for its grammar. The check goes through the elements with a
stack and rendering goes through the tree, with some elements left out and others repeated in scopes that loops change;
both are compared on the elements in document order. -/

namespace Stencil

open Markup

namespace Directive

variable {c : Config} {e : Element} {d : Directive} {err : Error}

/-- The element has this directive, with a value that is outside its grammar. -/
def Faulty (c : Config) (e : Element) (d : Directive) (value : String) : Prop :=
  e.attr? (d.attr c) = some value ∧ d.accepts c value = false

/-- The directives that are looked at before this one. -/
def earlier : Directive → List Directive
  | condition => []
  | iteration => [condition]
  | text => [condition, iteration]

structure FirstFault (c : Config) (e : Element) (d : Directive) (value : String) : Prop where
  faulty : d.Faulty c e value
  first : ∀ d' ∈ d.earlier, ∀ value', ¬ d'.Faulty c e value'

def check (c : Config) (e : Element) (d : Directive) : Except Error Unit :=
  match e.attr? (d.attr c) with
  | some value => d.read c value
  | none => .ok ()

theorem not_faulty_of_check (h : d.check c e = .ok ()) (value : String) : ¬ d.Faulty c e value := by
  rintro ⟨hattr, haccepts⟩
  rw [check, hattr] at h
  dsimp only at h
  rw [read_eq, haccepts] at h
  cases h

theorem faulty_of_check (h : d.check c e = .error err) :
    ∃ value, d.Faulty c e value ∧ err = .directiveSyntax (d.attr c) value := by
  unfold check at h
  split at h
  · next value hattr =>
    rw [read_eq] at h
    split at h
    · cases h
    · next haccepts =>
      obtain rfl := Except.error.inj h
      exact ⟨value, ⟨hattr, by simpa using haccepts⟩, rfl⟩
  · cases h

end Directive

open Directive (Faulty FirstFault)

namespace Config

variable {c : Config} {e : Element} {err : Error}

theorem check_eq (c : Config) (e : Element) :
    c.check e = (do
      Directive.check c e .condition
      Directive.check c e .iteration
      Directive.check c e .text) := rfl

theorem not_faulty_of_check (h : c.check e = .ok ()) (d : Directive) (value : String) : ¬ d.Faulty c e value := by
  rw [check_eq] at h
  obtain ⟨⟨⟩, hc, h⟩ := ok_of_bind h
  obtain ⟨⟨⟩, hi, ht⟩ := ok_of_bind h
  cases d with
  | condition => exact Directive.not_faulty_of_check hc value
  | iteration => exact Directive.not_faulty_of_check hi value
  | text => exact Directive.not_faulty_of_check ht value

theorem firstFault_of_check (h : c.check e = .error err) :
    ∃ d value, FirstFault c e d value ∧ err = .directiveSyntax (d.attr c) value := by
  rw [check_eq] at h
  rcases error_of_bind h with hc | ⟨⟨⟩, hc, h⟩
  · obtain ⟨value, hfaulty, rfl⟩ := Directive.faulty_of_check hc
    exact ⟨.condition, value, ⟨hfaulty, nofun⟩, rfl⟩
  · rcases error_of_bind h with hi | ⟨⟨⟩, hi, ht⟩
    · obtain ⟨value, hfaulty, rfl⟩ := Directive.faulty_of_check hi
      refine ⟨.iteration, value, ⟨hfaulty, ?_⟩, rfl⟩
      rintro _ (_ | ⟨_, ⟨⟩⟩)
      exact Directive.not_faulty_of_check hc
    · obtain ⟨value, hfaulty, rfl⟩ := Directive.faulty_of_check ht
      refine ⟨.text, value, ⟨hfaulty, ?_⟩, rfl⟩
      rintro _ (_ | ⟨_, _ | ⟨_, ⟨⟩⟩⟩)
      · exact Directive.not_faulty_of_check hc
      · exact Directive.not_faulty_of_check hi

end Config

/-! ### Checking one after the other -/

section ForM

variable {α : Type} {f : α → Except Error Unit} {xs : List α}

theorem forM_cons (f : α → Except Error Unit) (x : α) (xs : List α) :
    (x :: xs).forM f = f x >>= fun _ => xs.forM f := rfl

theorem forall_of_forM (h : xs.forM f = .ok ()) : ∀ x ∈ xs, f x = .ok () := by
  induction xs with
  | nil => exact nofun
  | cons x xs ih =>
    rw [forM_cons] at h
    obtain ⟨⟨⟩, hx, h⟩ := ok_of_bind h
    exact List.forall_mem_cons.2 ⟨hx, ih h⟩

theorem first_of_forM {err : Error} (h : xs.forM f = .error err) :
    ∃ before x after, xs = before ++ x :: after ∧ (∀ y ∈ before, f y = .ok ()) ∧ f x = .error err := by
  induction xs with
  | nil => cases h
  | cons x xs ih =>
    rw [forM_cons] at h
    rcases error_of_bind h with hx | ⟨⟨⟩, hx, h⟩
    · exact ⟨[], x, xs, rfl, nofun, hx⟩
    · obtain ⟨before, y, after, rfl, hbefore, hy⟩ := ih h
      exact ⟨x :: before, y, after, rfl, List.forall_mem_cons.2 ⟨hx, hbefore⟩, hy⟩

end ForM

/-! ### Sinks -/

/-- Of these chunks, given one after the other, the sink takes some and refuses the next one with this failure. -/
inductive Sink.Refuses {σ : Type} (sink : Sink σ) (err : Error) : List String → σ → Prop
  | here {chunk : String} {rest : List String} {out held : σ} (h : sink.append chunk out = (.error err, held)) :
      Refuses sink err (chunk :: rest) out
  | later {chunk : String} {rest : List String} {out held : σ} (taken : sink.append chunk out = (.ok (), held))
      (h : Refuses sink err rest held) : Refuses sink err (chunk :: rest) out

/-- The sinks of the library: a text, a list of chunks, and what a writer is behind. -/
inductive Sink.IsProvided : (σ : Type) → Sink σ → Prop
  | text : IsProvided String text
  | chunks : IsProvided (Array String) chunks
  | writing {ω : Type} (w : Writer ω) : IsProvided ω (writing w)

theorem Sink.IsProvided.io_of_append {σ : Type} {sink : Sink σ} (h : IsProvided σ sink) {err : Error} {chunk : String}
    {out held : σ} (happend : sink.append chunk out = (.error err, held)) : ∃ detail, err = .io detail := by
  cases h with
  | text => cases happend
  | chunks => cases happend
  | writing w =>
    have result : (w.writeAll (Text.Utf8.encode chunk) out).1.mapError Error.io = .error err :=
      congrArg Prod.fst happend
    cases hwrite : (w.writeAll (Text.Utf8.encode chunk) out).1 with
    | ok u =>
      rw [hwrite] at result
      cases result
    | error detail =>
      rw [hwrite] at result
      exact ⟨detail, (Except.error.inj result).symm⟩

theorem Sink.IsProvided.io_of_refuses {σ : Type} {sink : Sink σ} (h : IsProvided σ sink) {err : Error}
    {chunks : List String} {out : σ} (hrefuses : sink.Refuses err chunks out) : ∃ detail, err = .io detail := by
  induction hrefuses with
  | here happend => exact h.io_of_append happend
  | later _ _ ih => exact ih

theorem Outcome.refuses_of_emitAll {σ : Type} {sink : Sink σ} {chunks : List String} {out : σ} {err : Error}
    (h : (emitAll sink chunks out).1 = .error err) : sink.Refuses err chunks out := by
  induction chunks generalizing out with
  | nil => cases h
  | cons chunk chunks ih =>
    unfold emitAll at h
    split at h
    · next held taken => exact .later taken (ih h)
    · next e held happend =>
      obtain rfl := Except.error.inj h
      exact .here happend

/-- What comes of an outcome in a sink is a failure of the sink at one of the chunks, or of the outcome. -/
theorem Outcome.refuses_or_of_emit {σ : Type} {sink : Sink σ} {o : Outcome} {out : σ} {err : Error}
    (h : (o.emit sink out).1 = .error err) : sink.Refuses err o.chunks out ∨ o.result = .error err := by
  unfold emit at h
  split at h
  · exact .inr h
  · next e held hall =>
    obtain rfl := Except.error.inj h
    exact .inl (refuses_of_emitAll (by rw [hall]))

/-! ### Templates -/

namespace Error

variable {α : Type} {x : Except Error α} {message : String}

theorem ok_of_inContext {a : α} (h : inContext message x = .ok a) : x = .ok a := by
  cases x with
  | error cause => cases h
  | ok b => exact h

theorem error_of_inContext {err : Error} (h : inContext message x = .error err) :
    ∃ cause, x = .error cause ∧ err = cause.withContext message := by
  cases x with
  | error cause => exact ⟨cause, rfl, (Except.error.inj h).symm⟩
  | ok a => cases h

end Error

/-- The failure comes from a directive outside its grammar, whatever is wrapped around it. -/
def Error.IsSyntax (err : Error) : Prop := ∃ attr value, err.rootCause = .directiveSyntax attr value

theorem Error.IsLookup.not_isSyntax {err : Error} (h : err.IsLookup) : ¬ err.IsSyntax := by
  rintro ⟨attr, value, hroot⟩
  cases err with
  | unbound | noSuchProperty | notIterable => cases hroot
  | _ => exact h.elim

namespace Template

variable {t : Template} {err : Error}

theorem check_of_validate (h : t.validate = .ok ()) : ∀ e ∈ preorder t.document, t.config.check e = .ok () := by
  intro e he
  exact Error.ok_of_inContext (forall_of_forM h e (by rwa [elements_eq_preorder]))

theorem first_of_validate (h : t.validate = .error err) :
    ∃ before e after cause, preorder t.document = before ++ e :: after ∧ (∀ x ∈ before, t.config.check x = .ok ()) ∧
      t.config.check e = .error cause ∧ err = cause.withContext ("in <" ++ e.name ++ "> of template " ++ t.name) := by
  obtain ⟨before, e, after, helements, hbefore, he⟩ := first_of_forM h
  obtain ⟨cause, hcheck, herr⟩ := Error.error_of_inContext he
  rw [elements_eq_preorder] at helements
  exact ⟨before, e, after, cause, helements, fun x hx => Error.ok_of_inContext (hbefore x hx), hcheck, herr⟩

/-- The chunks that a template is rendered into. -/
def chunks (t : Template) (scope : Scope) : List String := (t.render Sink.chunks scope #[]).2.out.toList

theorem chunks_eq (t : Template) (scope : Scope) :
    t.chunks scope = (Meaning.nodes t.config t.document scope.get?).chunks := by
  have out : (t.render Sink.chunks scope #[]).2.out =
      ((Meaning.nodes t.config t.document scope.get?).emit Sink.chunks #[]).2 :=
    congrArg Prod.snd (Render.means_document t.document ⟨scope, #[], #[]⟩).1
  rw [chunks, out, Outcome.emit_chunks]
  simp

/-- A template that passes the check is rendered without a failure of grammar: none comes from a sink of the library, and
from any other sink only one with which it refuses a chunk itself. A check that fails names the first element in document
order that has a fault, and its first fault, which fails in the same way in every scope. -/
theorem validate_sound (t : Template) :
    (t.validate = .ok () → ∀ (σ : Type) (sink : Sink σ) (scope : Scope) (out : σ) (err : Error),
      (t.render sink scope out).1 = .error err →
        (Sink.IsProvided σ sink → ¬ err.IsSyntax) ∧ (err.IsSyntax → sink.Refuses err (t.chunks scope) out)) ∧
    ∀ err, t.validate = .error err → ∃ before e after d value,
      preorder t.document = before ++ e :: after ∧
      (∀ x ∈ before, ∀ d' value', ¬ Faulty t.config x d' value') ∧ FirstFault t.config e d value ∧
      err.rootCause = .directiveSyntax (d.attr t.config) value ∧
      err = err.rootCause.withContext ("in <" ++ e.name ++ "> of template " ++ t.name) ∧
      ∀ scope, d.evaluate t.config scope value = .error (.directiveSyntax (d.attr t.config) value) := by
  constructor
  · intro hvalid σ sink scope out err herr
    have fails : (Meaning.nodes t.config t.document scope.get?).FailsWith fun err => ¬ err.IsSyntax := by
      refine Meaning.failsWith_nodes (fun _ h => h.not_isSyntax) (fun e he d value hattr err hread => ?_) _
      rw [Directive.read_eq] at hread
      split at hread
      · cases hread
      · next haccepts =>
        have faulty : d.Faulty t.config e value := ⟨hattr, by simpa using haccepts⟩
        exact absurd faulty (Config.not_faulty_of_check (check_of_validate hvalid e he) d value)
    have hrun : ((Meaning.nodes t.config t.document scope.get?).emit sink out).1 = .error err := by
      rw [← (Render.means_document t.document ⟨scope, out, #[]⟩).1]
      exact herr
    rw [chunks_eq]
    rcases Outcome.refuses_or_of_emit hrun with hrefuses | hresult
    · refine ⟨fun hprovided => ?_, fun _ => hrefuses⟩
      obtain ⟨detail, rfl⟩ := hprovided.io_of_refuses hrefuses
      rintro ⟨attr, value, hroot⟩
      cases hroot
    · exact ⟨fun _ => fails err hresult, fun hsyntax => absurd hsyntax (fails err hresult)⟩
  · intro err herr
    obtain ⟨before, e, after, cause, helements, hbefore, he, rfl⟩ := first_of_validate herr
    obtain ⟨d, value, hfirst, rfl⟩ := Config.firstFault_of_check he
    exact ⟨before, e, after, d, value, helements, fun x hx => Config.not_faulty_of_check (hbefore x hx), hfirst, rfl, rfl,
      Directive.evaluate_of_not_accepts hfirst.faulty.2⟩

/-- Items with a link, one of them under a condition. -/
def links (source : String) : Template where
  name := "links.html"
  document :=
    [.element ⟨"ul", [("t:each", some source)], .endTag⟩
      [.element ⟨"br", [], .void⟩ [],
        .element ⟨"a", [("href", some "#"), ("t:text", some "${link.name}"), ("t:if", some "TRUE")], .endTag⟩ []]]
  config := {}

theorem validate_sound_links :
    ((links "link: ${page.links()}").validate = .ok () ∧
      ∀ err, ((links "link: ${page.links()}").render Sink.text .empty "").1 = .error err → ¬ err.IsSyntax) ∧
    ∃ err, (links "link in ${page.links()}").validate = .error err ∧ err.IsSyntax := by
  have passes : (links "link: ${page.links()}").validate = .ok () := by
    have h : (links "link: ${page.links()}").validate.toBool = true := by decide +kernel
    cases hv : (links "link: ${page.links()}").validate with
    | ok u => rfl
    | error err => rw [hv] at h; cases h
  have sound := (validate_sound _).1 passes String Sink.text .empty ""
  refine ⟨⟨passes, fun err herr => (sound err herr).1 .text⟩, ?_⟩
  have h : (links "link in ${page.links()}").validate.toBool = false := by decide +kernel
  cases hv : (links "link in ${page.links()}").validate with
  | ok u => rw [hv] at h; cases h
  | error err =>
    obtain ⟨_, _, _, d, value, -, -, -, hroot, -⟩ := (validate_sound _).2 err hv
    exact ⟨err, rfl, _, value, hroot⟩

end Template
end Stencil
