import Stencil.Markup.Event.Step

/-! The events of a source. A carriage return, alone or before a newline, counts as a newline. -/

namespace Stencil.Markup

/-- A state, the place of the next character, and whether the character before it was a carriage return. -/
structure Reader where
  state : State
  place : Nat
  afterReturn : Bool
  deriving Repr, DecidableEq

namespace Reader

def start : Reader := ⟨.text .markup none, 0, false⟩

def step (r : Reader) (c : Char) : Reader × List Event :=
  if c = '\n' ∧ r.afterReturn then ({ r with place := r.place + 1, afterReturn := false }, [])
  else
    let (state, es) := r.state.step r.place (if c = '\r' then '\n' else c)
    (⟨state, r.place + 1, c = '\r'⟩, es)

def run (r : Reader) : List Char → Reader × List Event
  | [] => (r, [])
  | c :: cs =>
    let (r, es) := r.step c
    let (r, es') := r.run cs
    (r, es ++ es')

theorem run_append (r : Reader) (cs ds : List Char) :
    r.run (cs ++ ds) = ((r.run cs).1.run ds |>.1, (r.run cs).2 ++ ((r.run cs).1.run ds).2) := by
  induction cs generalizing r with
  | nil => simp [run]
  | cons c cs ih => simp [run, ih]

end Reader

def events (source : List Char) : List Event :=
  let (r, es) := Reader.start.run source
  es ++ r.state.finish

end Stencil.Markup
