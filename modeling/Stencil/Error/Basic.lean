import Stencil.Text.Quoted

/-! What can go wrong with a template, and the message and code of each failure. A failure may be wrapped in
messages that say what was being done; the wrappers change the text and never the code. -/

namespace Stencil

inductive Error
  /-- The value of a directive attribute is outside that directive's grammar. -/
  | directiveSyntax (attr value : String)
  /-- The root name of an expression is not in scope. -/
  | unbound (name expression : String)
  /-- A segment of a path does not exist on the value before it. -/
  | noSuchProperty (segment typeName : String)
  /-- The source of an iteration is neither a list nor a collection. -/
  | notIterable (typeName expression : String)
  | parse (message : String) (line column : Nat)
  | config (message : String)
  | io (detail : String)
  | json (detail : String)
  | toml (detail : String)
  | withContext (message : String) (source : Error)
  deriving Repr, DecidableEq

namespace Error

def message : Error → String
  | directiveSyntax attr value => "Invalid directive syntax in `" ++ attr ++ "`: " ++ Text.quote value
  | unbound name expression => "Unbound variable `" ++ name ++ "` in expression " ++ Text.quote expression
  | noSuchProperty segment typeName => "No property `" ++ segment ++ "` on value of type `" ++ typeName ++ "`"
  | notIterable typeName expression =>
    "Value of type `" ++ typeName ++ "` is not iterable (expression " ++ Text.quote expression ++ ")"
  | parse message line column => "Parse error at " ++ toString line ++ ":" ++ toString column ++ ": " ++ message
  | config message => "Configuration error: " ++ message
  | io detail => "IO error: " ++ detail
  | json detail => "JSON error: " ++ detail
  | toml detail => "TOML error: " ++ detail
  | withContext message _ => message

/-- A code that stays the same under wrapping. -/
def code : Error → String
  | directiveSyntax .. => "E_DIRECTIVE_SYNTAX"
  | unbound .. => "E_UNBOUND_VARIABLE"
  | noSuchProperty .. => "E_NO_SUCH_PROPERTY"
  | notIterable .. => "E_NOT_ITERABLE"
  | parse .. => "E_PARSE"
  | config _ => "E_CONFIG"
  | io _ => "E_IO"
  | json _ => "E_JSON"
  | toml _ => "E_TOML"
  | withContext _ source => source.code

def rootCause : Error → Error
  | withContext _ source => source.rootCause
  | e => e

def isWrapper : Error → Bool
  | withContext .. => true
  | _ => false

/-- Whether the failure was raised by a directive. -/
def isRenderError (e : Error) : Bool :=
  match e.rootCause with
  | directiveSyntax .. | unbound .. | noSuchProperty .. | notIterable .. => true
  | _ => false

def inContext {α : Type} (message : String) (x : Except Error α) : Except Error α :=
  x.mapError (withContext message)

end Error
end Stencil
