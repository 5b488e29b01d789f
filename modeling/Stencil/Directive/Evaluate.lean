import Stencil.Config.Basic
import Stencil.Directive.Resolve
import Stencil.Markup.Node

/-! Evaluating the three directives in a scope, and checking them without one. -/

namespace Stencil.Config

def parsed {α : Type} (attr value : String) (x : Option α) : Except Error α :=
  match x with
  | some a => .ok a
  | none => .error (.directiveSyntax attr value)

def condition (c : Config) (value : String) : Except Error Condition :=
  parsed c.conditionAttr value (Condition.read? c.pathLimit value)

def iteration (c : Config) (value : String) : Except Error Iteration :=
  parsed c.iterationAttr value (Iteration.read? c.pathLimit value)

def textPath (c : Config) (value : String) : Except Error Path :=
  parsed c.textAttr value (Path.read? c.pathLimit value)

/-- Whether a condition holds. Literals do not look at the scope, and a path that leads nowhere is a failure
and not a false condition. -/
def holds (c : Config) (scope : Scope) (value : String) : Noted Bool := do
  match ← .ofExcept (c.condition value) with
  | .literal b => return b
  | .path p => return (← p.resolve scope).isTruthy

def items (c : Config) (scope : Scope) (value : String) : Noted (String × List Value) := do
  let i ← .ofExcept (c.iteration value)
  return (i.variableName, ← i.source.elements scope)

def textOf (c : Config) (scope : Scope) (value : String) : Noted String := do
  let p ← .ofExcept (c.textPath value)
  return (← p.resolve scope).text

def checkAttr {α : Type} (e : Markup.Element) (attr : String) (read : String → Except Error α) :
    Except Error Unit :=
  match e.attr? attr with
  | some value => (read value).map fun _ => ()
  | none => .ok ()

/-- Checks the grammar of each directive of an element: condition, iteration, text. -/
def check (c : Config) (e : Markup.Element) : Except Error Unit := do
  checkAttr e c.conditionAttr c.condition
  checkAttr e c.iterationAttr c.iteration
  checkAttr e c.textAttr c.textPath

end Stencil.Config
