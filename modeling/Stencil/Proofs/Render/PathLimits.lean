import Stencil.Proofs.Render.Sinks
import Stencil.Proofs.Render.Validation

/-! Limits on paths. A rendering under a limit goes on as it would under a weaker one, up to the first directive that only
the weaker one lets through; there it stops, and nothing else tells the two apart. -/

namespace Stencil

open Markup

variable {σ : Type}

/-! ### What a sink takes -/

def Sink.recording (sink : Sink σ) : Sink (σ × List String) where
  append chunk out :=
    match sink.append chunk out.1 with
    | (.ok (), after) => (.ok (), after, out.2 ++ [chunk])
    | (.error e, after) => (.error e, after, out.2)

namespace Outcome

/-- The chunks that a sink takes before it refuses one. -/
def taken (sink : Sink σ) : List String → σ → List String
  | [], _ => []
  | chunk :: rest, out =>
    match sink.append chunk out with
    | (.ok (), out) => chunk :: taken sink rest out
    | (.error _, _) => []

theorem emitAll_recording (sink : Sink σ) (chunks old : List String) (out : σ) :
    emitAll sink.recording chunks (out, old) =
      ((emitAll sink chunks out).1, (emitAll sink chunks out).2, old ++ taken sink chunks out) := by
  induction chunks generalizing out old with
  | nil => simp [emitAll, taken]
  | cons chunk rest ih =>
    rcases h : sink.append chunk out with ⟨err | ⟨⟩, after⟩
    · simp [emitAll, taken, Sink.recording, h]
    · have first : sink.recording.append chunk (out, old) = (.ok (), after, old ++ [chunk]) := by
        simp [Sink.recording, h]
      simp only [emitAll, taken, h, first, ih, List.append_assoc, List.singleton_append]

theorem emit_recording (sink : Sink σ) (o : Outcome) (out : σ) :
    o.emit sink.recording (out, []) = ((o.emit sink out).1, (o.emit sink out).2, taken sink o.chunks out) := by
  unfold emit
  rw [emitAll_recording]
  rcases emitAll sink o.chunks out with ⟨err | ⟨⟩, after⟩ <;> rfl

/-- What is taken of more chunks is what was taken before, and nothing more if a chunk has been refused. -/
theorem taken_append (sink : Sink σ) (as bs : List String) (out : σ) :
    taken sink (as ++ bs) out = taken sink as out ++
      match emitAll sink as out with
      | (.ok (), after) => taken sink bs after
      | (.error _, _) => [] := by
  induction as generalizing out with
  | nil => rfl
  | cons chunk as ih =>
    rcases h : sink.append chunk out with ⟨err | ⟨⟩, after⟩
    · simp [taken, emitAll, h]
    · simp only [List.cons_append, taken, emitAll, h, ih]

end Outcome

/-! ### Stopping at a directive -/

def EndsInSyntax {α : Type} (x : Except Error α) : Prop := ∃ attr value, x = .error (.directiveSyntax attr value)

/-- An evaluation that comes to the same, or fails where a directive cannot be read. -/
def Narrows {α : Type} (x y : Except Error α) : Prop := x = y ∨ EndsInSyntax x

theorem Narrows.bind {α β : Type} {x y : Except Error α} (h : Narrows x y) (f : α → Except Error β) :
    Narrows (x >>= f) (y >>= f) := by
  rcases h with rfl | ⟨attr, value, rfl⟩
  · exact .inl rfl
  · exact .inr ⟨attr, value, rfl⟩

theorem narrows_parsed {α : Type} {attr value : String} {x y : Option α} (h : ∀ a, x = some a → y = some a) :
    Narrows (Config.parsed attr value x) (Config.parsed attr value y) := by
  cases x with
  | none => exact .inr ⟨attr, value, rfl⟩
  | some a => exact .inl (by rw [h a rfl])

namespace Outcome

/-- An outcome that is the same, or stops before, where a directive cannot be read. -/
def Restricts (a b : Outcome) : Prop := a = b ∨ EndsInSyntax a.result ∧ a.chunks <+: b.chunks

theorem Restricts.refl (a : Outcome) : a.Restricts a := .inl rfl

theorem chunks_andThen (a b : Outcome) : a.chunks <+: (a.andThen b).chunks := by
  rcases h : a.result with err | ⟨⟩
  · exact ⟨[], by rw [andThen_error h, List.append_nil]⟩
  · rw [andThen_ok h]
    exact List.prefix_append _ _

theorem Restricts.andThen {a a' b b' : Outcome} (ha : a.Restricts a') (hb : b.Restricts b') :
    (a.andThen b).Restricts (a'.andThen b') := by
  rcases ha with rfl | ⟨⟨attr, value, hstop⟩, hchunks⟩
  · rcases h : a.result with err | ⟨⟩
    · rw [andThen_error h, andThen_error h]
      exact Restricts.refl a
    · rw [andThen_ok h, andThen_ok h]
      rcases hb with rfl | ⟨hstop, hchunks⟩
      · exact Restricts.refl _
      · exact .inr ⟨hstop, (List.prefix_append_right_inj _).2 hchunks⟩
  · -- the first outcome stops, and what follows it does not come
    rw [andThen_error hstop]
    exact .inr ⟨⟨attr, value, hstop⟩, hchunks.trans (chunks_andThen a' b')⟩

theorem restricts_given {α : Type} {x y : Except Error α} {f g : α → Outcome} (hx : Narrows x y)
    (hf : ∀ a, (f a).Restricts (g a)) : (given x f).Restricts (given y g) := by
  rcases hx with rfl | ⟨attr, value, rfl⟩
  · cases x with
    | error err => exact Restricts.refl _
    | ok a => exact hf a
  · exact .inr ⟨⟨attr, value, rfl⟩, List.nil_prefix⟩

/-- A sink takes the chunks of both alike, as far as the first goes. -/
theorem Restricts.emit {a b : Outcome} (h : a.Restricts b) (sink : Sink σ) (out : σ) :
    ∃ more, taken sink b.chunks out = taken sink a.chunks out ++ more ∧
      (¬ EndsInSyntax (a.emit sink out).1 → b.emit sink out = a.emit sink out ∧ more = []) := by
  rcases h with rfl | ⟨hstop, rest, hchunks⟩
  · exact ⟨[], (List.append_nil _).symm, fun _ => ⟨rfl, rfl⟩⟩
  · rw [← hchunks, taken_append]
    refine ⟨_, rfl, fun hends => ?_⟩
    rcases hall : emitAll sink a.chunks out with ⟨err | ⟨⟩, after⟩
    · -- the sink refuses a chunk that both have
      refine ⟨?_, rfl⟩
      unfold Outcome.emit
      rw [← hchunks, emitAll_append, hall]
    · have result : (a.emit sink out).1 = a.result := by rw [Outcome.emit, hall]
      rw [result] at hends
      exact absurd hstop hends

end Outcome

/-! ### Weaker limits -/

def Config.withLimit (c : Config) (most : Option Nat) : Config := { c with maxSegments := most }

@[simp] theorem Config.conditionAttr_withLimit (c : Config) (most : Option Nat) :
    (c.withLimit most).conditionAttr = c.conditionAttr := rfl

@[simp] theorem Config.iterationAttr_withLimit (c : Config) (most : Option Nat) :
    (c.withLimit most).iterationAttr = c.iterationAttr := rfl

@[simp] theorem Config.textAttr_withLimit (c : Config) (most : Option Nat) :
    (c.withLimit most).textAttr = c.textAttr := rfl

@[simp] theorem Directive.attr_withLimit (c : Config) (most : Option Nat) (d : Directive) :
    d.attr (c.withLimit most) = d.attr c := by cases d <;> rfl

namespace Meaning

@[simp] theorem line_withLimit (c : Config) (most : Option Nat) (chunk : String) :
    line (c.withLimit most) chunk = line c chunk := rfl

theorem shownAttrs_withLimit (c : Config) (most : Option Nat) (attrs : List (String × Option String)) :
    shownAttrs (c.withLimit most) attrs = shownAttrs c attrs := by
  induction attrs with
  | nil => rfl
  | cons a attrs ih =>
    have same : (c.withLimit most).isDirective a.1 = c.isDirective a.1 := rfl
    rw [shownAttrs, shownAttrs, same, ih]

@[simp] theorem openTag_withLimit (c : Config) (most : Option Nat) (e : Element) (terminator : String) :
    openTag (c.withLimit most) e terminator = openTag c e terminator := by
  rw [openTag, openTag, shownAttrs_withLimit, line_withLimit]

end Meaning

section Weaker

variable {c : Config} {m : Nat} {most : Option Nat} (weaker : ∀ n ∈ most, m ≤ n)

include weaker

theorem PathLimit.holds_of_weaker {p : Path} (h : (⟨some m⟩ : PathLimit).Holds p) :
    (⟨most⟩ : PathLimit).Holds p := by
  intro n hn
  exact (h m rfl).trans (weaker n hn)

theorem Path.read?_of_weaker {s : String} {p : Path} (h : Path.read? ⟨some m⟩ s = some p) :
    Path.read? ⟨most⟩ s = some p := by
  obtain ⟨hs, hnames, hcalls, hlimit⟩ := Path.read?_eq_some_iff.1 h
  exact Path.read?_eq_some_iff.2 ⟨hs, hnames, hcalls, PathLimit.holds_of_weaker weaker hlimit⟩

theorem Iteration.read?_of_weaker {s : String} {i : Iteration} (h : Iteration.read? ⟨some m⟩ s = some i) :
    Iteration.read? ⟨most⟩ s = some i := by
  obtain ⟨before, between, hbefore, hbetween, hs, hname, hnames, hcalls, hlimit⟩ := Iteration.read?_eq_some_iff.1 h
  exact Iteration.read?_eq_some_iff.2
    ⟨before, between, hbefore, hbetween, hs, hname, hnames, hcalls, PathLimit.holds_of_weaker weaker hlimit⟩

theorem Condition.read?_of_weaker {s : String} {x : Condition} (h : Condition.read? ⟨some m⟩ s = some x) :
    Condition.read? ⟨most⟩ s = some x := by
  rcases Condition.read?_eq_some_iff.1 h with htrue | hfalse | ⟨p, rfl, hp⟩
  · exact Condition.read?_eq_some_iff.2 (.inl htrue)
  · exact Condition.read?_eq_some_iff.2 (.inr (.inl hfalse))
  · exact Condition.read?_eq_some_iff.2 (.inr (.inr ⟨p, rfl, Path.read?_of_weaker weaker hp⟩))

theorem Directive.accepts_of_weaker {d : Directive} {value : String} (h : d.accepts (c.withLimit (some m)) value) :
    d.accepts (c.withLimit most) value := by
  cases d with
  | condition =>
    obtain ⟨x, hx⟩ := Option.isSome_iff_exists.1 h
    exact Option.isSome_iff_exists.2 ⟨x, Condition.read?_of_weaker weaker hx⟩
  | iteration =>
    obtain ⟨i, hi⟩ := Option.isSome_iff_exists.1 h
    exact Option.isSome_iff_exists.2 ⟨i, Iteration.read?_of_weaker weaker hi⟩
  | text =>
    obtain ⟨p, hp⟩ := Option.isSome_iff_exists.1 h
    exact Option.isSome_iff_exists.2 ⟨p, Path.read?_of_weaker weaker hp⟩

namespace Meaning

theorem narrows_isShown (env : Environment) (e : Element) :
    Narrows (isShown (c.withLimit (some m)) env e) (isShown (c.withLimit most) env e) := by
  unfold isShown
  simp only [Config.conditionAttr_withLimit]
  cases e.attr? c.conditionAttr with
  | none => exact .inl rfl
  | some value => exact (narrows_parsed fun _ h => Condition.read?_of_weaker weaker h).bind _

theorem narrows_items (env : Environment) (value : String) :
    Narrows (items (c.withLimit (some m)) env value) (items (c.withLimit most) env value) := by
  unfold items
  exact (narrows_parsed fun _ h => Iteration.read?_of_weaker weaker h).bind _

theorem narrows_content (env : Environment) (value : String) :
    Narrows (content (c.withLimit (some m)) env value) (content (c.withLimit most) env value) := by
  unfold content
  exact (narrows_parsed fun _ h => Path.read?_of_weaker weaker h).bind _

variable {body body' : Environment → Outcome} (hbody : ∀ env, (body env).Restricts (body' env))

include hbody

theorem restricts_once (e : Element) (env : Environment) :
    (once (c.withLimit (some m)) e body env).Restricts (once (c.withLimit most) e body' env) := by
  unfold once
  simp only [Config.textAttr_withLimit, openTag_withLimit, line_withLimit]
  cases e.attr? c.textAttr with
  | some value => exact Outcome.restricts_given (narrows_content weaker env value) fun s => .refl _
  | none =>
    cases e.closing with
    | endTag => exact (Outcome.Restricts.refl _).andThen ((hbody env).andThen (.refl _))
    | selfClosing => exact .refl _
    | void => exact .refl _

theorem restricts_loop (e : Element) (env : Environment) (x : String) (vs : List Value) :
    (loop (c.withLimit (some m)) e body env x vs).Restricts (loop (c.withLimit most) e body' env x vs) := by
  unfold loop
  induction vs with
  | nil => exact .refl _
  | cons v vs ih => exact (restricts_once weaker hbody e (env.bind x v)).andThen ih

theorem restricts_element (e : Element) (env : Environment) :
    (element (c.withLimit (some m)) e body env).Restricts (element (c.withLimit most) e body' env) := by
  unfold element
  refine Outcome.restricts_given (narrows_isShown weaker env e) fun shown => ?_
  cases shown with
  | false => exact .refl _
  | true =>
    simp only [Config.iterationAttr_withLimit, Bool.not_true, Bool.false_eq_true, if_false]
    cases e.attr? c.iterationAttr with
    | some value =>
      exact Outcome.restricts_given (narrows_items weaker env value) fun x => restricts_loop weaker hbody e env x.1 x.2
    | none => exact restricts_once weaker hbody e env

omit hbody in
theorem restricts_nodes (ns : List Node) (env : Environment) :
    (nodes (c.withLimit (some m)) ns env).Restricts (nodes (c.withLimit most) ns env) := by
  induction ns using nodes_induction generalizing env with
  | nil => exact .refl _
  | text content ns ih => exact (Outcome.Restricts.refl _).andThen (ih env)
  | element e children ns ihc ih => exact (restricts_element weaker ihc e env).andThen (ih env)

end Meaning

theorem Template.validate_of_weaker {name : String} {d : Document}
    (h : Template.validate ⟨name, d, c.withLimit (some m)⟩ = .ok ()) :
    Template.validate ⟨name, d, c.withLimit most⟩ = .ok () := by
  rcases hweak : Template.validate ⟨name, d, c.withLimit most⟩ with err | ⟨⟩
  · obtain ⟨before, e, after, cause, helements, -, hcheck, -⟩ := Template.first_of_validate hweak
    have he : e ∈ preorder d := by rw [show preorder d = before ++ e :: after from helements]; simp
    obtain ⟨directive, value, ⟨⟨hattr, hrefused⟩, -⟩, -⟩ := Config.firstFault_of_check hcheck
    -- what the weaker limit refuses is refused under the limit itself
    have faulty : directive.Faulty (c.withLimit (some m)) e value := by
      rw [Directive.attr_withLimit] at hattr
      refine ⟨by rwa [Directive.attr_withLimit], ?_⟩
      by_contra haccepts
      rw [Bool.not_eq_false] at haccepts
      rw [Directive.accepts_of_weaker weaker haccepts] at hrefused
      cases hrefused
    exact absurd faulty (Config.not_faulty_of_check (Template.check_of_validate h e he) directive value)
  · rfl

end Weaker

namespace Render

/-- Under a weaker limit a document is rendered to the same chunks and perhaps more. There are none more, and the rendering
ends alike, unless the first one ends at a directive that cannot be read; and a template that passes the check still
passes it. -/
theorem into_weaker_limit (c : Config) (d : Document) {m : Nat} {most : Option Nat} (weaker : ∀ n ∈ most, m ≤ n) :
    (∀ (σ : Type) (sink : Sink σ) (scope : Scope) (out : σ),
      let strict := into sink (c.withLimit (some m)) d scope out
      let weak := into sink (c.withLimit most) d scope out
      ∃ chunks more,
        into sink.recording (c.withLimit (some m)) d scope (out, []) = (strict.1, strict.2, chunks) ∧
        into sink.recording (c.withLimit most) d scope (out, []) = (weak.1, weak.2, chunks ++ more) ∧
        (¬ EndsInSyntax strict.1 → weak = strict ∧ more = [])) ∧
    ∀ name, Template.validate ⟨name, d, c.withLimit (some m)⟩ = .ok () →
      Template.validate ⟨name, d, c.withLimit most⟩ = .ok () := by
  refine ⟨fun σ sink scope out => ?_, fun name => Template.validate_of_weaker weaker⟩
  simp only [into_eq_emit, Outcome.emit_recording]
  obtain ⟨more, htaken, hends⟩ := (Meaning.restricts_nodes weaker d scope.get?).emit sink out
  exact ⟨_, more, rfl, by rw [htaken], hends⟩

/-- A text, and the number of rooms two steps away from its root. -/
def rooms : Document :=
  [.element ⟨"b", [], .endTag⟩ [.text "Rooms"],
    .element ⟨"i", [("t:text", some "$\x7bhome.rooms.size\x7d")], .endTag⟩ []]

/-- Where one step is allowed the number is refused, and where two are it is rendered. -/
theorem into_weaker_limit_rooms :
    (∀ n ∈ some 2, 1 ≤ n) ∧
      let home := Object.plain [] "Home" fun _ => some (.list [.null, .null, .null])
      let scope := Scope.empty.put "home" (.object home)
      let strict := into Sink.text (Config.withLimit {} (some 1)) rooms scope ""
      let weak := into Sink.text (Config.withLimit {} (some 2)) rooms scope ""
      (strict.1.toBool = false ∧ strict.2 = "<b>Rooms</b>") ∧ (weak.1.toBool = true ∧ weak.2 = "<b>Rooms</b><i>3</i>") ∧
      ∃ chunks more,
        into Sink.text.recording (Config.withLimit {} (some 1)) rooms scope ("", []) = (strict.1, strict.2, chunks) ∧
        into Sink.text.recording (Config.withLimit {} (some 2)) rooms scope ("", []) =
          (weak.1, weak.2, chunks ++ more) ∧
        (¬ EndsInSyntax strict.1 → weak = strict ∧ more = []) := by
  have weaker : ∀ n ∈ some 2, 1 ≤ n := by simp
  refine ⟨weaker, ?_⟩
  intro home scope
  exact ⟨by decide +kernel, by decide +kernel, (into_weaker_limit {} rooms weaker).1 String Sink.text scope ""⟩

end Render

end Stencil
