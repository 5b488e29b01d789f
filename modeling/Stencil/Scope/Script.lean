import Stencil.Scope.Basic

/-! Scripts on a scope, with frames that nest. An action may fail, which abandons the rest of the innermost frame
and nothing outside it. -/

namespace Stencil.Scope

inductive Action
  | put (name : String) (v : Value)
  | get (name : String)
  | remove (name : String)
  | contains (name : String)
  | size
  | list
  /-- Binds the name of the innermost frame. -/
  | bind (v : Value)
  | fail (name : String)
  /-- Runs a script inside a new frame for a name. -/
  | shadow (name : String) (script : List Action)
  /-- Runs a script and compares the scope with what it was before. -/
  | compare (script : List Action)

inductive Reply
  | previous (v : Option Value)
  | value (v : Option Value)
  | contains (b : Bool)
  | size (n : Nat)
  | list (bindings : List (String × Value))
  | bound (name : String)
  | shadow (inside : List Reply) (failed : Option Error) (after : List (String × Value))
  | compare (inside : List Reply) (equal : Bool)

/-- What a script leaves: the replies of its actions, why it stopped early if it did, and the scope. -/
structure Run where
  replies : List Reply
  failed : Option Error
  scope : Scope

mutual

/-- `frame` is the name of the innermost frame. -/
def Action.run (frame : Option String) (s : Scope) : Action → Run
  | .put name v => ⟨[.previous (s.get? name)], none, s.put name v⟩
  | .get name => ⟨[.value (s.get? name)], none, s⟩
  | .remove name => ⟨[.previous (s.get? name)], none, s.remove name⟩
  | .contains name => ⟨[.contains (s.contains name)], none, s⟩
  | .size => ⟨[.size s.size], none, s⟩
  | .list => ⟨[.list s.toList], none, s⟩
  | .bind v =>
    match frame with
    | some name => ⟨[.bound name], none, s.put name v⟩
    | none => ⟨[], none, s⟩
  | .fail name => ⟨[], some (.unbound name "$\x7bfail\x7d"), s⟩
  | .shadow name script =>
    let inside := run (some name) s script
    let after := inside.scope.restore (s.shadow name)
    ⟨[.shadow inside.replies inside.failed after.toList], none, after⟩
  | .compare script =>
    let inside := run frame s script
    ⟨[.compare inside.replies (inside.scope.same s)], inside.failed, inside.scope⟩

def run (frame : Option String) (s : Scope) : List Action → Run
  | [] => ⟨[], none, s⟩
  | a :: rest =>
    let first := a.run frame s
    match first.failed with
    | some e => ⟨first.replies, some e, first.scope⟩
    | none =>
      let later := run frame first.scope rest
      ⟨first.replies ++ later.replies, later.failed, later.scope⟩

end

end Stencil.Scope
