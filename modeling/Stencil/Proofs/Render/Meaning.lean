import Stencil.Render.Document

/-! What a document means in an environment that never changes: the chunks to append, in their order, and success
or one failure. Nothing is put back here, since nothing is ever overwritten. -/

namespace Stencil

/-- What each name stands for. -/
abbrev Environment := String → Option Value

namespace Environment

def bind (env : Environment) (name : String) (v : Value) : Environment :=
  fun n => if n = name then some v else env n

def lookup (env : Environment) (p : Path) : Except Error Value :=
  match env p.root with
  | none => .error (.unbound p.root p.text)
  | some v => p.segments.foldlM Segment.step v

def elements (env : Environment) (p : Path) : Except Error (List Value) := do
  let v ← env.lookup p
  match v.elements? with
  | some items => .ok items
  | none => .error (.notIterable v.typeName p.text)

end Environment

/-- Chunks in their order, and how the evaluation that yields them ends. -/
structure Outcome where
  chunks : List String
  result : Except Error Unit

namespace Outcome

def done : Outcome := ⟨[], .ok ()⟩

def failed (e : Error) : Outcome := ⟨[], .error e⟩

def andThen (a b : Outcome) : Outcome :=
  match a.result with
  | .ok () => ⟨a.chunks ++ b.chunks, b.result⟩
  | .error _ => a

def given {α : Type} (x : Except Error α) (f : α → Outcome) : Outcome :=
  match x with
  | .ok a => f a
  | .error e => failed e

/-- Appends chunks until one of them is refused. -/
def emitAll {σ : Type} (sink : Sink σ) : List String → σ → Except Error Unit × σ
  | [], out => (.ok (), out)
  | chunk :: rest, out =>
    match sink.append chunk out with
    | (.ok (), out) => emitAll sink rest out
    | (.error e, out) => (.error e, out)

/-- Appends the chunks of an outcome. A chunk that is refused is the failure, and not what comes after it. -/
def emit {σ : Type} (sink : Sink σ) (o : Outcome) (out : σ) : Except Error Unit × σ :=
  match emitAll sink o.chunks out with
  | (.ok (), out) => (o.result, out)
  | (.error e, out) => (.error e, out)

end Outcome

namespace Meaning

/-- A chunk, and the newline that line breaks put after it. -/
def line (c : Config) (chunk : String) : Outcome :=
  ⟨chunk :: (if c.lineBreaks then ["\n"] else []), .ok ()⟩

def text (c : Config) (content : String) : Outcome :=
  if content.toList.all Text.isBlank then .done
  else line c (String.ofList (Text.trim content.toList))

/-- The quotes for a value: double ones, unless the value has some of these and no single ones. -/
def quoteOf (value : List Char) : Char := if '"' ∈ value ∧ '\'' ∉ value then '\'' else '"'

def quotedChar (quote c : Char) : String :=
  if c = '&' then "&amp;" else if c = '"' ∧ quote = '"' then "&quot;" else c.toString

def quoted (value : List Char) : String :=
  let quote := (quoteOf value).toString
  quote ++ String.join (value.map (quotedChar (quoteOf value))) ++ quote

/-- An attribute with the blank before it. -/
def attr (name : String) : Option String → String
  | none => " " ++ name
  | some value => " " ++ name ++ "=" ++ quoted value.toList

/-- Every attribute that is no directive, in declaration order. -/
def shownAttrs (c : Config) : List (String × Option String) → List String
  | [] => []
  | (name, value) :: rest => if c.isDirective name then shownAttrs c rest else attr name value :: shownAttrs c rest

example : attr "title" (some "R&D, \"5'\"") = " title=\"R&amp;D, &quot;5'&quot;\"" := by decide +kernel

def openTag (c : Config) (e : Markup.Element) (terminator : String) : Outcome :=
  line c ("<" ++ e.name ++ String.join (shownAttrs c e.attrs) ++ terminator)

def closeTag (e : Markup.Element) : Outcome := ⟨["</" ++ e.name ++ ">"], .ok ()⟩

def isShown (c : Config) (env : Environment) (e : Markup.Element) : Except Error Bool :=
  match e.attr? c.conditionAttr with
  | none => .ok true
  | some value => do
    match ← c.condition value with
    | .literal b => .ok b
    | .path p => .ok (← env.lookup p).isTruthy

def items (c : Config) (env : Environment) (value : String) : Except Error (String × List Value) := do
  let i ← c.iteration value
  .ok (i.variableName, ← env.elements i.source)

def content (c : Config) (env : Environment) (value : String) : Except Error String := do
  let p ← c.textPath value
  .ok (← env.lookup p).text

/-- The element once. Its children count only where no text directive stands in their place, and only if it has
an end tag. -/
def once (c : Config) (e : Markup.Element) (body : Environment → Outcome) (env : Environment) : Outcome :=
  match e.attr? c.textAttr with
  | some value => .given (content c env value) fun s =>
    (openTag c e ">").andThen ((line c s).andThen (closeTag e))
  | none =>
    match e.closing with
    | .selfClosing => openTag c e "/>"
    | .void => openTag c e ">"
    | .endTag => (openTag c e ">").andThen ((body env).andThen (closeTag e))

/-- The element once for each item, each time in the same environment but for the loop variable. -/
def loop (c : Config) (e : Markup.Element) (body : Environment → Outcome) (env : Environment)
    (variableName : String) (items : List Value) : Outcome :=
  items.foldr (fun item rest => (once c e body (env.bind variableName item)).andThen rest) .done

def element (c : Config) (e : Markup.Element) (body : Environment → Outcome) (env : Environment) : Outcome :=
  .given (isShown c env e) fun shown =>
    if !shown then .done
    else match e.attr? c.iterationAttr with
      | some value => .given (items c env value) fun (variableName, vs) => loop c e body env variableName vs
      | none => once c e body env

mutual

def node (c : Config) : Markup.Node → Environment → Outcome
  | .text content, _ => text c content
  | .element e children, env => element c e (nodes c children) env

def nodes (c : Config) : List Markup.Node → Environment → Outcome
  | [], _ => .done
  | n :: ns, env => (node c n env).andThen (nodes c ns env)

end

end Meaning
end Stencil
