import Stencil.Directive.Evaluate
import Stencil.Render.Rendering

/-! Rendering trees. For each element the condition comes first, then the iteration, then the text directive.
Text of the template is trimmed, and blank text dropped. -/

namespace Stencil

inductive Treatment
  | skip
  /-- Once for each item, bound to the loop variable. -/
  | loop (variableName : String) (items : List Value)
  | once

namespace Config

def treatment (c : Config) (e : Markup.Element) (scope : Scope) : Noted Treatment := do
  let shown ← match e.attr? c.conditionAttr with
    | some value => c.holds scope value
    | none => pure true
  if !shown then
    return .skip
  match e.attr? c.iterationAttr with
  | some value =>
    let (variableName, items) ← c.items scope value
    return .loop variableName items
  | none => return .once

end Config

namespace Render

/-- An attribute value in quotes, so that it reads back the same. Single quotes are taken where they save
escaping. -/
def quoteAttr (value : String) : String :=
  let cs := value.toList
  let escapeAmp := fun c => if c = '&' then "&amp;".toList else [c]
  let escapeBoth := fun c => if c = '"' then "&quot;".toList else escapeAmp c
  if '"' ∈ cs ∧ '\'' ∉ cs then String.ofList ('\'' :: cs.flatMap escapeAmp ++ ['\''])
  else String.ofList ('"' :: cs.flatMap escapeBoth ++ ['"'])

def attrText (name : String) : Option String → String
  | some value => " " ++ name ++ "=" ++ quoteAttr value
  | none => " " ++ name

/-- The opening tag, without the directives. -/
def openTag (c : Config) (e : Markup.Element) (terminator : String) : String :=
  let shown := e.attrs.filter fun (name, _) => !c.isDirective name
  "<" ++ e.name ++ String.join (shown.map fun (name, value) => attrText name value) ++ terminator

def closeTag (e : Markup.Element) : String := "</" ++ e.name ++ ">"

variable {σ : Type} (sink : Sink σ) (c : Config)

/-- A chunk, and the line break after it. -/
def line (chunk : String) : Rendering σ Unit := do
  Rendering.append sink chunk
  if c.lineBreaks then
    Rendering.append sink "\n"

def text (content : String) : Rendering σ Unit :=
  match Text.trim content.toList with
  | [] => pure ()
  | cs => line sink c (String.ofList cs)

/-- The element as it is, `body` being the rendering of its children. A text directive takes their place. -/
def once (e : Markup.Element) (body : Rendering σ Unit) : Rendering σ Unit := do
  match e.attr? c.textAttr with
  | some value =>
    let content ← Rendering.evaluate (c.textOf · value)
    line sink c (openTag c e ">")
    line sink c content
    Rendering.append sink (closeTag e)
  | none =>
    match e.closing with
    | .selfClosing => line sink c (openTag c e "/>")
    | .void => line sink c (openTag c e ">")
    | .endTag =>
      line sink c (openTag c e ">")
      body
      Rendering.append sink (closeTag e)

def loop (e : Markup.Element) (variableName : String) (body : Rendering σ Unit) :
    Nat → List Value → Rendering σ Unit
  | _, [] => pure ()
  | i, item :: items => do
    Rendering.note .trace ("<" ++ e.name ++ "> iteration " ++ toString i ++ " of `" ++ variableName ++ "`")
    Rendering.bind variableName item
    once sink c e body
    loop e variableName body (i + 1) items

def element (e : Markup.Element) (body : Rendering σ Unit) : Rendering σ Unit := do
  -- The treatment itself is not noted: it would be a dump of all items.
  match ← Rendering.evaluate (c.treatment e) with
  | .skip => pure ()
  | .once => once sink c e body
  | .loop variableName items => Rendering.shadowing variableName (loop sink c e variableName body 0 items)

mutual

def node : Markup.Node → Rendering σ Unit
  | .text content => text sink c content
  | .element e children => element sink c e (nodes children)

def nodes : List Markup.Node → Rendering σ Unit
  | [] => pure ()
  | n :: ns => do
    node n
    nodes ns

end

/-- Renders a whole document. What was appended before a failure stays appended. -/
def document (d : Markup.Document) : Rendering σ Unit := do
  Rendering.note .debug ("rendering document with " ++ toString d.length ++ " top-level nodes")
  try
    nodes sink c d
  catch e =>
    Rendering.note .warn ("render aborted: " ++ e.message)
    throw e
  Rendering.note .debug "render finished"

end Render
end Stencil
