import Stencil.Proofs.Named
import Stencil.Scope.Script

/-! Frames on a scope. What a script leaves is told by the writes in it, one after the other and without any scope: a frame
takes the writes to its own name away and lets all others through, so however frames nest, each undoes its own name and
nothing else. -/

namespace Stencil.Scope

abbrev Write := String × Option Value

mutual

/-- Whether an action gives up the rest of the innermost frame. A script inside a new frame gives up no more than that. -/
def Action.givesUp : Action → Bool
  | .fail _ => true
  | .compare script => givesUp script
  | _ => false

def givesUp : List Action → Bool
  | [] => false
  | a :: rest => a.givesUp || givesUp rest

end

mutual

/-- The writes of an action that are still there when it is over, `frame` being the name of the innermost frame. -/
def Action.writes (frame : Option String) : Action → List Write
  | .put name v => [(name, some v)]
  | .remove name => [(name, none)]
  | .bind v => frame.toList.map fun name => (name, some v)
  | .shadow name script => (writes (some name) script).filter fun w => w.1 ≠ name
  | .compare script => writes frame script
  | .get _ | .contains _ | .size | .list | .fail _ => []

def writes (frame : Option String) : List Action → List Write
  | [] => []
  | a :: rest => a.writes frame ++ if a.givesUp then [] else writes frame rest

end

/-- What a name stands for after writes: what was written last under it, or what it stood for before if nothing was. -/
def written (s : Scope) (ws : List Write) (name : String) : Option Value := (Named.last? ws name).getD (s.get? name)

theorem written_append {s t : Scope} {as : List Write} (h : ∀ name, t.get? name = s.written as name) (bs : List Write)
    (name : String) : t.written bs name = s.written (as ++ bs) name := by
  unfold written
  rw [Named.last?_append, h]
  cases Named.last? bs name <;> rfl

theorem written_singleton (s : Scope) (n : String) (v : Option Value) (name : String) :
    s.written [(n, v)] name = if n = name then v else s.get? name := by
  by_cases h : n = name <;> simp [written, Named.last?, h]

/-- Closing a frame takes the writes to its name away, wherever they stand among the others. -/
theorem get?_restore_written {s t : Scope} {ws : List Write} (h : ∀ name, t.get? name = s.written ws name)
    (x name : String) : (t.restore (s.shadow x)).get? name = s.written (ws.filter fun w => w.1 ≠ x) name := by
  rw [get?_restore]
  by_cases hx : x = name
  · subst hx
    rw [if_pos rfl, written, Named.last?_filter_self, Option.getD_none]
  · rw [if_neg hx, h, written, written, Named.last?_filter_ne ws hx]

mutual

theorem Action.isSome_failed (frame : Option String) (s : Scope) :
    ∀ a : Action, (a.run frame s).failed.isSome = a.givesUp
  | .put .. | .get _ | .remove _ | .contains _ | .size | .list | .fail _ | .shadow .. => rfl
  | .bind v => by cases frame <;> rfl
  | .compare script => Scope.isSome_failed frame s script

theorem isSome_failed (frame : Option String) (s : Scope) :
    ∀ script : List Action, (run frame s script).failed.isSome = givesUp script
  | [] => rfl
  | a :: rest => by
    have first := a.isSome_failed frame s
    rw [run, givesUp, ← first]
    cases h : (a.run frame s).failed with
    | none => exact isSome_failed frame _ rest
    | some e => rfl

end

mutual

theorem Action.get?_run (frame : Option String) (s : Scope) :
    ∀ (a : Action) (name : String), (a.run frame s).scope.get? name = s.written (a.writes frame) name
  | .put n v, name => by
    rw [Action.writes, written_singleton]
    exact get?_put s n v name
  | .remove n, name => by
    rw [Action.writes, written_singleton]
    exact get?_remove s n name
  | .bind v, name => by
    cases frame with
    | none => rfl
    | some n =>
      have one : (Action.bind v).writes (some n) = [(n, some v)] := rfl
      rw [one, written_singleton]
      exact get?_put s n v name
  | .shadow n script, name => by
    have inside := Scope.get?_run (some n) s script
    rw [Action.writes, ← get?_restore_written inside]
    rfl
  | .compare script, name => Scope.get?_run frame s script name
  | .get _, _ | .contains _, _ | .size, _ | .list, _ | .fail _, _ => rfl

theorem get?_run (frame : Option String) (s : Scope) :
    ∀ (script : List Action) (name : String), (run frame s script).scope.get? name = s.written (writes frame script) name
  | [], _ => rfl
  | a :: rest, name => by
    have first := a.get?_run frame s
    have failed := a.isSome_failed frame s
    rw [run, writes, ← failed]
    cases h : (a.run frame s).failed with
    | none =>
      have later := get?_run frame (a.run frame s).scope rest name
      rw [written_append first] at later
      exact later
    | some e =>
      rw [Option.isSome_some, if_pos rfl, List.append_nil]
      exact first name

end

/-- However a script inside a frame ends, and whatever it writes and frames inside it do: with the frame closed, its name
stands for what it stood for before, and every other name for what the script wrote last under it, of which frames inside
have taken away the writes to their own names. -/
theorem shadow_undoes_own_name (frame : Option String) (s : Scope) (x : String) (script : List Action) :
    let inside := run (some x) s script
    let after := (Action.shadow x script).run frame s
    after.failed = none ∧ ∀ name,
      inside.scope.get? name = s.written (writes (some x) script) name ∧
      after.scope.get? name = if x = name then s.get? name else inside.scope.get? name :=
  ⟨rfl, fun name => ⟨get?_run (some x) s script name, get?_restore s _ x name⟩⟩

/-- A frame inside of one of the same name does not undo what the outer one has written, and gives up for itself alone. -/
example :
    writes (some "i") [.bind .null, .shadow "i" [.bind (.bool true), .put "k" .null, .fail "i", .remove "k"], .remove "j"] =
      [("i", some .null), ("k", some .null), ("j", none)] := by
  rfl

end Stencil.Scope
