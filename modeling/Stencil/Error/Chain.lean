import Stencil.Error.Basic

/-! The layers of a wrapped failure, from the outermost message to the failure itself. -/

namespace Stencil.Error

def layers : Error → List Error
  | withContext message source => withContext message source :: source.layers
  | e => [e]

def depth (e : Error) : Nat := e.layers.length

def wrapping? : Error → Option String
  | withContext message _ => some message
  | _ => none

def messages (e : Error) : List String := e.layers.filterMap wrapping?

/-- One line: the wrapping messages and the failure itself. -/
def logText (e : Error) : String := ": ".intercalate (e.messages ++ [e.rootCause.message])

/-- The failure itself, and each wrapping message on a line of its own. -/
def chainText (e : Error) : String := e.rootCause.message ++ String.join (e.messages.map ("\n  " ++ ·))

example : ((unbound "a" "$a").withContext "in <p>").logText = "in <p>: Unbound variable `a` in expression \"$a\"" := by
  decide +kernel

end Stencil.Error
