import Stencil.Directive.Grammar
import Stencil.Noted
import Stencil.Scope.Basic

/-! Looking paths up in a scope. -/

namespace Stencil

def Segment.step (current : Value) (s : Segment) : Except Error Value :=
  let found := match s with
    | .property name => current.property? name
    | .call name => current.call? name
  match found with
  | some v => .ok v
  | none => .error (.noSuchProperty s.label current.typeName)

namespace Path

/-- The value the path leads to: what its root is bound to, and from there one segment after the other. -/
def lookup (scope : Scope) (p : Path) : Except Error Value :=
  match scope.get? p.root with
  | none => .error (.unbound p.root p.text)
  | some v => p.segments.foldlM Segment.step v

def resolve (scope : Scope) (p : Path) : Noted Value := do
  let v ← .ofExcept (p.lookup scope)
  Noted.note .trace ("resolved " ++ p.text ++ " to a " ++ v.typeName)
  return v

def elements (scope : Scope) (p : Path) : Noted (List Value) := do
  let v ← p.resolve scope
  match v.elements? with
  | some items => return items
  | none => .ofExcept (.error (.notIterable v.typeName p.text))

def resolveText (limit : PathLimit) (scope : Scope) (value : String) : Noted Value :=
  match Path.read? limit value with
  | some p => p.resolve scope
  | none => .ofExcept (.error (.directiveSyntax "path" value))

def elementsOfText (limit : PathLimit) (scope : Scope) (value : String) : Noted (List Value) :=
  match Iteration.read? limit value with
  | some i => i.source.elements scope
  | none => .ofExcept (.error (.directiveSyntax "iteration" value))

end Path
end Stencil
