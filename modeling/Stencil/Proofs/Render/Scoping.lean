import Stencil.Proofs.Render.Meaning

/-! Rendering agrees with meaning. A rendering binds loop variables in the one scope it has, and a meaning binds
nothing, so both are compared on what the scope shows: frames put back what they hide, hence a rendering that ends,
in whatever way, leaves the scope showing what it showed before. -/

namespace Stencil

variable {σ α : Type}

namespace Outcome

@[simp] theorem chunks_done : done.chunks = [] := rfl

theorem andThen_ok {a : Outcome} (h : a.result = .ok ()) (b : Outcome) :
    a.andThen b = ⟨a.chunks ++ b.chunks, b.result⟩ := by
  simp [andThen, h]

theorem andThen_error {a : Outcome} {e : Error} (h : a.result = .error e) (b : Outcome) : a.andThen b = a := by
  simp [andThen, h]

theorem emitAll_append (sink : Sink σ) (as bs : List String) (out : σ) :
    emitAll sink (as ++ bs) out =
      match emitAll sink as out with
      | (.ok (), out) => emitAll sink bs out
      | (.error e, out) => (.error e, out) := by
  induction as generalizing out with
  | nil => rfl
  | cons chunk as ih =>
    simp only [List.cons_append, emitAll]
    rcases sink.append chunk out with ⟨_ | ⟨⟩, out'⟩
    · rfl
    · exact ih out'

theorem emit_andThen (sink : Sink σ) (a b : Outcome) (out : σ) :
    (a.andThen b).emit sink out =
      match a.emit sink out with
      | (.ok (), out) => b.emit sink out
      | (.error e, out) => (.error e, out) := by
  rcases h : a.result with e | ⟨⟩
  · rw [andThen_error h]
    unfold emit
    rw [h]
    rcases emitAll sink a.chunks out with ⟨_ | ⟨⟩, _⟩ <;> rfl
  · rw [andThen_ok h]
    unfold emit
    rw [h, emitAll_append]
    rcases emitAll sink a.chunks out with ⟨_ | ⟨⟩, _⟩ <;> rfl

theorem emit_text (o : Outcome) (out : String) :
    o.emit Sink.text out = (o.result, out ++ String.join o.chunks) := by
  have h : ∀ (chunks : List String) (out : String),
      emitAll Sink.text chunks out = (.ok (), out ++ String.join chunks) := by
    intro chunks
    induction chunks with
    | nil => intro out; simp [emitAll]
    | cons chunk chunks ih =>
      intro out
      have step : emitAll Sink.text (chunk :: chunks) out = emitAll Sink.text chunks (out ++ chunk) := rfl
      rw [step, ih, String.join_cons, String.append_assoc]
  simp [emit, h]

theorem emit_chunks (o : Outcome) (out : Array String) :
    o.emit Sink.chunks out = (o.result, out ++ o.chunks.toArray) := by
  have h : ∀ (chunks : List String) (out : Array String),
      emitAll Sink.chunks chunks out = (.ok (), out ++ chunks.toArray) := by
    intro chunks
    induction chunks with
    | nil => intro out; simp [emitAll]
    | cons chunk chunks ih =>
      intro out
      have step : emitAll Sink.chunks (chunk :: chunks) out = emitAll Sink.chunks chunks (out.push chunk) := rfl
      rw [step, ih, Array.push_eq_append]
      simp
  simp [emit, h]

end Outcome

/-! What directives find in a scope is what they find in the environment that it shows. -/

theorem Path.lookup_eq (scope : Scope) (p : Path) : p.lookup scope = Environment.lookup scope.get? p := rfl

theorem Path.result_resolve (scope : Scope) (p : Path) :
    (p.resolve scope).result = Environment.lookup scope.get? p := by
  rw [← Path.lookup_eq]
  simp only [resolve, Noted.result_bind, Noted.result_ofExcept, Noted.result_note, Noted.result_pure]
  cases p.lookup scope <;> rfl

theorem Path.result_elements (scope : Scope) (p : Path) :
    (p.elements scope).result = Environment.elements scope.get? p := by
  simp only [elements, Environment.elements, Noted.result_bind, Path.result_resolve]
  cases Environment.lookup scope.get? p with
  | error e => rfl
  | ok v =>
    simp only [Except.bind, bind]
    cases v.elements? <;> rfl

theorem Config.result_holds (c : Config) (scope : Scope) (value : String) :
    (c.holds scope value).result = (do
      match ← c.condition value with
      | .literal b => .ok b
      | .path p => .ok (← Environment.lookup scope.get? p).isTruthy) := by
  simp only [holds, Noted.result_bind, Noted.result_ofExcept]
  rcases c.condition value with e | ⟨b⟩ | ⟨p⟩
  · rfl
  · rfl
  · change (p.resolve scope >>= fun v => pure v.isTruthy : Noted Bool).result = _
    rw [Noted.result_bind, Path.result_resolve]
    rfl

theorem Config.result_items (c : Config) (scope : Scope) (value : String) :
    (c.items scope value).result = Meaning.items c scope.get? value := by
  simp only [items, Meaning.items, Noted.result_bind, Noted.result_ofExcept]
  cases c.iteration value with
  | error e => rfl
  | ok i =>
    change (i.source.elements scope).result.bind (fun vs => .ok (i.variableName, vs)) = _
    rw [Path.result_elements]
    rfl

theorem Config.result_textOf (c : Config) (scope : Scope) (value : String) :
    (c.textOf scope value).result = Meaning.content c scope.get? value := by
  simp only [textOf, Meaning.content, Noted.result_bind, Noted.result_ofExcept]
  cases c.textPath value with
  | error e => rfl
  | ok p =>
    change (p.resolve scope).result.bind (fun v => .ok v.text) = _
    rw [Path.result_resolve]
    rfl

def Meaning.treatment (c : Config) (e : Markup.Element) (env : Environment) : Except Error Treatment := do
  if !(← isShown c env e) then return .skip
  match e.attr? c.iterationAttr with
  | some value => do
    let (variableName, vs) ← items c env value
    return .loop variableName vs
  | none => return .once

theorem Config.result_treatment (c : Config) (e : Markup.Element) (scope : Scope) :
    (c.treatment e scope).result = Meaning.treatment c e scope.get? := by
  -- what is done once it is known whether the element is shown
  have decided : ∀ shown : Bool,
      ((if !shown then pure .skip
        else match e.attr? c.iterationAttr with
          | some value => do
            let (variableName, vs) ← c.items scope value
            return .loop variableName vs
          | none => return .once) : Noted Treatment).result =
      (if !shown then .ok .skip
        else match e.attr? c.iterationAttr with
          | some value => (Meaning.items c scope.get? value).bind fun x => .ok (.loop x.1 x.2)
          | none => .ok .once) := by
    rintro (_ | _)
    · rfl
    · cases e.attr? c.iterationAttr with
      | none => rfl
      | some value =>
        change (c.items scope value >>= fun x => pure (Treatment.loop x.1 x.2) : Noted Treatment).result = _
        rw [Noted.result_bind, Config.result_items]
        rfl
  unfold treatment Meaning.treatment Meaning.isShown
  cases e.attr? c.conditionAttr with
  | none => exact decided true
  | some value =>
    dsimp only
    rw [Noted.result_bind, Config.result_holds]
    congr 1
    funext shown
    exact decided shown

namespace Rendering

/-- A rendering that does what a meaning says, in whatever environment its scope shows, and leaves the scope showing
the same. -/
def Means (sink : Sink σ) (r : Rendering σ Unit) (m : Environment → Outcome) : Prop :=
  ∀ canvas : Canvas σ, ((r canvas).1, (r canvas).2.out) = (m canvas.scope.get?).emit sink canvas.out ∧
    (r canvas).2.scope.get? = canvas.scope.get?

/-- The same, where the scope may show anything under one name, before and after. -/
def MeansBeside (sink : Sink σ) (x : String) (r : Rendering σ Unit) (m : Environment → Outcome) : Prop :=
  ∀ (canvas : Canvas σ) (env : Environment), (∀ n, n ≠ x → canvas.scope.get? n = env n) →
    ((r canvas).1, (r canvas).2.out) = (m env).emit sink canvas.out ∧
      ∀ n, n ≠ x → (r canvas).2.scope.get? n = env n

variable {sink : Sink σ}

theorem bind_apply {β : Type} (r : Rendering σ α) (k : α → Rendering σ β) (canvas : Canvas σ) :
    (r >>= k) canvas =
      match r canvas with
      | (.ok a, canvas) => k a canvas
      | (.error e, canvas) => (.error e, canvas) := by
  have h : (r >>= k) canvas = ExceptT.bindCont k (r canvas).1 (r canvas).2 := rfl
  rw [h]
  rcases r canvas with ⟨_ | a, s⟩ <;> rfl

theorem tryCatch_apply (r : Rendering σ α) (handler : Error → Rendering σ α) (canvas : Canvas σ) :
    tryCatch r handler canvas =
      match r canvas with
      | (.ok a, canvas) => (.ok a, canvas)
      | (.error e, canvas) => handler e canvas := by
  change ExceptT.tryCatch r handler canvas = _
  generalize hr : r canvas = after
  simp only [ExceptT.tryCatch, ExceptT.mk, Bind.bind, StateT.bind, hr]
  rcases after with ⟨_ | a, s⟩ <;> rfl

theorem means_pure : Means sink (pure ()) fun _ => .done := fun _ => ⟨rfl, rfl⟩

theorem means_append (chunk : String) : Means sink (append sink chunk) fun _ => ⟨[chunk], .ok ()⟩ := by
  intro canvas
  refine ⟨?_, rfl⟩
  change sink.append chunk canvas.out = _
  simp only [Outcome.emit, Outcome.emitAll]
  rcases sink.append chunk canvas.out with ⟨_ | ⟨⟩, _⟩ <;> rfl

theorem Means.andThen {r s : Rendering σ Unit} {m n : Environment → Outcome} (hr : Means sink r m)
    (hs : Means sink s n) : Means sink (r >>= fun _ => s) fun env => (m env).andThen (n env) := by
  intro canvas
  obtain ⟨h1, h2⟩ := hr canvas
  rw [bind_apply, Outcome.emit_andThen, ← h1]
  rcases h : r canvas with ⟨e | ⟨⟩, after⟩
  · rw [h] at h2
    exact ⟨rfl, h2⟩
  · rw [h] at h2
    obtain ⟨h3, h4⟩ := hs after
    rw [h2] at h3 h4
    exact ⟨h3, h4⟩

theorem Means.afterNote {r : Rendering σ Unit} {m : Environment → Outcome} (level : Level) (text : String)
    (h : Means sink r m) : Means sink (note level text >>= fun _ => r) m := by
  intro canvas
  exact h { canvas with log := canvas.log.push ⟨level, text⟩ }

theorem means_evaluate {f : Scope → Noted α} {g : Environment → Except Error α}
    {k : α → Rendering σ Unit} {m : α → Environment → Outcome}
    (hf : ∀ scope, (f scope).result = g scope.get?) (hk : ∀ a, Means sink (k a) (m a)) :
    Means sink (evaluate f >>= k) fun env => .given (g env) fun a => m a env := by
  intro canvas
  rw [bind_apply]
  simp only [evaluate, hf]
  cases g canvas.scope.get? with
  | error e => exact ⟨rfl, rfl⟩
  | ok a => exact hk a { canvas with log := canvas.log ++ (f canvas.scope).notes }

/-- A frame hides what the scope shows under its name, and puts it back. -/
theorem MeansBeside.shadowing {x : String} {r : Rendering σ Unit} {m : Environment → Outcome}
    (h : MeansBeside sink x r m) : Means sink (shadowing x r) m := by
  intro canvas
  obtain ⟨h1, h2⟩ := h canvas canvas.scope.get? fun _ _ => rfl
  refine ⟨h1, ?_⟩
  funext n
  change ((r canvas).2.scope.restore (canvas.scope.shadow x)).get? n = _
  rw [Scope.get?_restore]
  split
  · rfl
  · next hn => exact h2 n (Ne.symm hn)

end Rendering

namespace Render

open Rendering

variable {sink : Sink σ} {c : Config}

theorem means_line (chunk : String) : Means sink (line sink c chunk) fun _ => Meaning.line c chunk := by
  unfold line Meaning.line
  split
  · exact (means_append chunk).andThen (means_append "\n")
  · exact (means_append chunk).andThen means_pure

theorem means_text (content : String) : Means sink (text sink c content) fun _ => Meaning.text c content := by
  unfold text Meaning.text
  cases h : Text.trim content.toList with
  | nil =>
    rw [if_pos (List.all_eq_true.2 (Text.trim_eq_nil_iff.1 h))]
    exact means_pure
  | cons x xs =>
    rw [if_neg fun blank => by simp [Text.trim_eq_nil_of_blank (List.all_eq_true.1 blank)] at h]
    exact means_line _

theorem quoted_eq (value : String) : Meaning.quoted value.toList = quoteAttr value := by
  have one : ∀ c : Char, c.toString.toList = [c] := by
    intro c
    rw [Char.toString_eq_singleton, String.toList_singleton]
  -- between the quotes each character is escaped on its own
  have around : ∀ (quote : Char) (f : Char → List Char), (∀ c, (Meaning.quotedChar quote c).toList = f c) →
      quote.toString ++ String.join (value.toList.map (Meaning.quotedChar quote)) ++ quote.toString =
        String.ofList (quote :: value.toList.flatMap f ++ [quote]) := by
    intro quote f hf
    have inside : (String.join (value.toList.map (Meaning.quotedChar quote))).toList = value.toList.flatMap f := by
      rw [String.toList_join, List.flatMap_map]
      exact congrFun (congrArg List.flatMap (funext hf)) value.toList
    apply String.toList_injective
    rw [String.toList_append, String.toList_append, inside, one, String.toList_ofList]
    rfl
  unfold Meaning.quoted Meaning.quoteOf quoteAttr
  by_cases single : '"' ∈ value.toList ∧ '\'' ∉ value.toList
  · simp only [if_pos single]
    refine around '\'' _ fun c => ?_
    unfold Meaning.quotedChar
    by_cases hamp : c = '&'
    · rw [if_pos hamp, if_pos hamp]
    · rw [if_neg hamp, if_neg hamp, if_neg fun h => absurd h.2 (by decide), one]
  · simp only [if_neg single]
    refine around '"' _ fun c => ?_
    unfold Meaning.quotedChar
    by_cases hquote : c = '"'
    · subst hquote
      rfl
    · by_cases hamp : c = '&'
      · rw [if_pos hamp, if_neg hquote, if_pos hamp]
      · rw [if_neg hamp, if_neg fun h => hquote h.1, if_neg hquote, if_neg hamp, one]

theorem attr_eq (name : String) (value : Option String) : Meaning.attr name value = attrText name value := by
  cases value with
  | none => rfl
  | some value => rw [Meaning.attr, attrText, quoted_eq]

theorem shownAttrs_eq (attrs : List (String × Option String)) :
    Meaning.shownAttrs c attrs =
      (attrs.filter fun (name, _) => !c.isDirective name).map fun (name, value) => attrText name value := by
  induction attrs with
  | nil => rfl
  | cons a attrs ih =>
    obtain ⟨name, value⟩ := a
    unfold Meaning.shownAttrs
    by_cases h : c.isDirective name <;> simp [h, ih, attr_eq]

theorem means_openTag (e : Markup.Element) (terminator : String) :
    Means sink (line sink c (openTag c e terminator)) fun _ => Meaning.openTag c e terminator := by
  unfold openTag Meaning.openTag
  rw [shownAttrs_eq]
  exact means_line _

theorem means_once (e : Markup.Element) {body : Rendering σ Unit} {m : Environment → Outcome}
    (h : Means sink body m) : Means sink (once sink c e body) (Meaning.once c e m) := by
  unfold once Meaning.once
  cases e.attr? c.textAttr with
  | some value =>
    refine means_evaluate (fun scope => Config.result_textOf c scope value) fun content => ?_
    exact (means_openTag e ">").andThen ((means_line content).andThen (means_append _))
  | none =>
    cases e.closing with
    | selfClosing => exact means_openTag e "/>"
    | void => exact means_openTag e ">"
    | endTag => exact (means_openTag e ">").andThen (h.andThen (means_append _))

/-- What stands under the loop variable before an item is bound does not matter. -/
theorem meansBeside_loop (e : Markup.Element) {body : Rendering σ Unit} {m : Environment → Outcome}
    (h : Means sink body m) (x : String) (i : Nat) (items : List Value) :
    MeansBeside sink x (loop sink c e x body i items) fun env => Meaning.loop c e m env x items := by
  induction items generalizing i with
  | nil => exact fun canvas env hc => ⟨rfl, hc⟩
  | cons item items ih =>
    intro canvas env hc
    have bound : (canvas.scope.put x item).get? = env.bind x item := by
      funext n
      rw [Scope.get?_put]
      unfold Environment.bind
      by_cases hn : n = x
      · rw [if_pos hn.symm, if_pos hn]
      · rw [if_neg (Ne.symm hn), if_neg hn, hc n hn]
    -- the note and the binding do no more than change the canvas
    let text := "<" ++ e.name ++ "> iteration " ++ toString i ++ " of `" ++ x ++ "`"
    obtain ⟨first, hscope, hout, run⟩ : ∃ first : Canvas σ, first.scope = canvas.scope.put x item ∧
        first.out = canvas.out ∧ loop sink c e x body i (item :: items) canvas =
          (once sink c e body >>= fun _ => loop sink c e x body (i + 1) items) first :=
      ⟨{ canvas with scope := canvas.scope.put x item, log := canvas.log.push ⟨.trace, text⟩ }, rfl, rfl, rfl⟩
    have meaning : Meaning.loop c e m env x (item :: items) =
        (Meaning.once c e m (env.bind x item)).andThen (Meaning.loop c e m env x items) := rfl
    have beside : ∀ n, n ≠ x → env.bind x item n = env n := fun n hn => if_neg hn
    obtain ⟨h1, h2⟩ := (means_once e h : Means sink (once sink c e body) _) first
    rw [hscope, bound] at h1 h2
    dsimp only
    rw [run, bind_apply, meaning, Outcome.emit_andThen, ← hout, ← h1]
    rcases hr : once sink c e body first with ⟨err | ⟨⟩, after⟩
    · rw [hr] at h2
      exact ⟨rfl, fun n hn => by rw [h2, beside n hn]⟩
    · rw [hr] at h2
      exact ih (i + 1) after env fun n hn => by rw [h2, beside n hn]

theorem meaning_element_eq (e : Markup.Element) (m : Environment → Outcome) (env : Environment) :
    Meaning.element c e m env = .given (Meaning.treatment c e env) fun
      | .skip => .done
      | .once => Meaning.once c e m env
      | .loop x items => Meaning.loop c e m env x items := by
  unfold Meaning.element Meaning.treatment
  rcases Meaning.isShown c env e with err | ⟨_ | _⟩
  · rfl
  · rfl
  · cases e.attr? c.iterationAttr with
    | none => rfl
    | some value =>
      change Outcome.given (Meaning.items c env value) _ =
        Outcome.given ((Meaning.items c env value).bind fun x => Except.ok (Treatment.loop x.1 x.2)) _
      cases Meaning.items c env value <;> rfl

theorem means_element (e : Markup.Element) {body : Rendering σ Unit} {m : Environment → Outcome}
    (h : Means sink body m) : Means sink (element sink c e body) (Meaning.element c e m) := by
  rw [show Meaning.element c e m = _ from funext fun env => meaning_element_eq e m env]
  refine means_evaluate (Config.result_treatment c e) fun treatment => ?_
  cases treatment with
  | skip => exact means_pure
  | once => exact means_once e h
  | loop x items => exact (meansBeside_loop e h x 0 items).shadowing

mutual

theorem means_node : ∀ n : Markup.Node, Means sink (node sink c n) (Meaning.node c n)
  | .text content => means_text content
  | .element e children => means_element e (means_nodes children)

theorem means_nodes : ∀ ns : List Markup.Node, Means sink (nodes sink c ns) (Meaning.nodes c ns)
  | [] => means_pure
  | n :: ns => (means_node n).andThen (means_nodes ns)

end

/-- The notes around a document change neither the result, nor the output, nor the scope. -/
theorem means_document (d : Markup.Document) : Means sink (document sink c d) (Meaning.nodes c d) := by
  refine Means.afterNote _ _ fun canvas => ?_
  obtain ⟨h1, h2⟩ := (means_nodes d : Means sink (nodes sink c d) (Meaning.nodes c d)) canvas
  rw [← h1, bind_apply, tryCatch_apply, ← h2]
  rcases nodes sink c d canvas with ⟨_ | ⟨⟩, after⟩ <;> exact ⟨rfl, rfl⟩

/-- Whatever the sink, a document is rendered as the chunks of its meaning in the environment that the scope shows,
up to the first failure of a directive or of the sink, and the scope shows that environment again afterwards. -/
theorem document_refines_meaning (c : Config) (d : Markup.Document) (scope : Scope) (log : Array Note) :
    let m := Meaning.nodes c d scope.get?
    (∀ (σ : Type) (sink : Sink σ) (out : σ),
      let (result, after) := document sink c d ⟨scope, out, log⟩;
      (result, after.out) = m.emit sink out ∧ after.scope.get? = scope.get?) ∧
    (let (result, after) := document Sink.chunks c d ⟨scope, #[], log⟩;
      result = m.result ∧ after.out.toList = m.chunks) := by
  intro m
  refine ⟨fun σ sink out => means_document d ⟨scope, out, log⟩, ?_⟩
  obtain ⟨h, -⟩ := (means_document d : Means Sink.chunks (document Sink.chunks c d) (Meaning.nodes c d)) ⟨scope, #[], log⟩
  rw [Outcome.emit_chunks, Prod.mk.injEq] at h
  have taken : (document Sink.chunks c d ⟨scope, #[], log⟩).2.out.toList = m.chunks := by
    rw [h.2]
    simp [m]
  exact ⟨h.1, taken⟩

/-- However a rendering ends, every name stands for what it stood for before, or for nothing if it did not. -/
theorem get?_scope_document (sink : Sink σ) (c : Config) (d : Markup.Document) (canvas : Canvas σ) (name : String) :
    (document sink c d canvas).2.scope.get? name = canvas.scope.get? name :=
  congrFun (means_document d canvas).2 name

end Render

end Stencil
