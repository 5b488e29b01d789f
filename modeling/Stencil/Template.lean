import Stencil.Markup.Tree
import Stencil.Render.Document

/-! Templates: a document and how it is rendered. -/

namespace Stencil

structure Template where
  /-- Where the template comes from, for messages. -/
  name : String
  document : Markup.Document
  config : Config

namespace Template

def inlineName : String := "<inline>"

/-- Reads a template with the default configuration. -/
def parse (name source : String) : Noted Template :=
  let parsed := Markup.Document.parse source
  match parsed.result with
  | .ok document => ⟨.ok ⟨name, document, {}⟩, parsed.notes ++ [⟨.debug, "parsed template " ++ name⟩]⟩
  | .error e => ⟨.error (e.withContext ("in template " ++ name)), parsed.notes⟩

def withConfig (t : Template) (c : Config) : Except Error Template := do
  c.validate
  return { t with config := c }

/-- Checks every directive, without a scope. -/
def validate (t : Template) : Except Error Unit :=
  t.document.elements.forM fun e =>
    Error.inContext ("in <" ++ e.name ++ "> of template " ++ t.name) (t.config.check e)

def render {σ : Type} (t : Template) (sink : Sink σ) (scope : Scope) (out : σ) :
    Except Error Unit × Canvas σ :=
  (Render.document sink t.config t.document).run ⟨scope, out, #[]⟩

end Template
end Stencil
