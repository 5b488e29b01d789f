import Stencil.Directive.Resolve
import Stencil.Render.Sink

/-! Renderings: actions on a scope, an output and a log, which stop at the first failure. -/

namespace Stencil

structure Canvas (σ : Type) where
  scope : Scope
  out : σ
  log : Array Note

abbrev Rendering (σ : Type) := ExceptT Error (StateM (Canvas σ))

namespace Rendering

variable {σ α : Type}

def note (level : Level) (text : String) : Rendering σ Unit :=
  modify fun c => { c with log := c.log.push ⟨level, text⟩ }

def append (sink : Sink σ) (chunk : String) : Rendering σ Unit := fun c =>
  let (result, out) := sink.append chunk c.out
  (result, { c with out })

def evaluate (f : Scope → Noted α) : Rendering σ α := fun c =>
  let e := f c.scope
  (e.result, { c with log := c.log ++ e.notes })

def bind (name : String) (v : Value) : Rendering σ Unit :=
  modify fun c => { c with scope := c.scope.put name v }

/-- Runs `body` in a shadow frame for `name`. The frame is closed however `body` ends. -/
def shadowing (name : String) (body : Rendering σ α) : Rendering σ α := fun c =>
  let (result, c') := body c
  (result, { c' with scope := c'.scope.restore (c.scope.shadow name) })

end Rendering
end Stencil
