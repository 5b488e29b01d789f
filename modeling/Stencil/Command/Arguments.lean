/-! The arguments of the command line. -/

namespace Stencil.Command

inductive Verb
  | render
  | check
  deriving Repr, DecidableEq

inductive Setting
  | context
  | config
  | output
  deriving Repr, DecidableEq

structure Arguments where
  template : Option String := none
  context : Option String := none
  config : Option String := none
  output : Option String := none
  verbose : Bool := false
  deriving Repr, DecidableEq

inductive Request
  | run (verb : Verb) (template : String) (args : Arguments)
  /-- Help on a verb, or on the whole command line. -/
  | help (topic : Option Verb)
  | version
  | usage
  deriving Repr, DecidableEq

inductive Stop
  | help
  | usage
  deriving Repr, DecidableEq

def Verb.long? : Verb → String → Option Setting
  | render, "context" => some .context
  | _, "config" => some .config
  | render, "output" => some .output
  | _, _ => none

def Verb.short? : Verb → Char → Option Setting
  | render, 'c' => some .context
  | render, 'o' => some .output
  | _, _ => none

/-- Gives a value to a slot that has none. Empty values count as missing. -/
def fill (slot : Option String) (value : String) : Except Stop (Option String) :=
  if slot.isSome || value.isEmpty then .error .usage else .ok (some value)

namespace Arguments

def set (a : Arguments) (s : Setting) (value : String) : Except Stop Arguments :=
  match s with
  | .context => (fill a.context value).map fun v => { a with context := v }
  | .config => (fill a.config value).map fun v => { a with config := v }
  | .output => (fill a.output value).map fun v => { a with output := v }

def setTemplate (a : Arguments) (value : String) : Except Stop Arguments :=
  (fill a.template value).map fun v => { a with template := v }

def setVerbose (a : Arguments) : Except Stop Arguments :=
  if a.verbose then .error .usage else .ok { a with verbose := true }

end Arguments

/-- The arguments so far, the option whose value comes next, and whether only operands follow. -/
structure Reading where
  args : Arguments := {}
  pending : Option Setting := none
  operands : Bool := false

def looksLikeOption (arg : String) : Bool := arg.startsWith "-" && arg ≠ "-"

def longOption (verb : Verb) (r : Reading) (body : List Char) : Except Stop Reading :=
  let name := String.ofList (body.takeWhile (· ≠ '='))
  let value := match body.dropWhile (· ≠ '=') with
    | _ :: v => some (String.ofList v)
    | [] => none
  match name, value, verb.long? name with
  | _, some v, some s => (r.args.set s v).map fun args => { r with args }
  | _, none, some s => .ok { r with pending := some s }
  | "help", none, _ => .error .help
  | "verbose", none, _ => r.args.setVerbose.map fun args => { r with args }
  | _, _, _ => .error .usage

/-- Short options in one argument. What follows one that takes a value is that value. -/
def shortOptions (verb : Verb) (r : Reading) : List Char → Except Stop Reading
  | [] => .ok r
  | c :: cs =>
    match verb.short? c, cs with
    | some s, [] => .ok { r with pending := some s }
    | some s, '=' :: value | some s, value =>
      (r.args.set s (String.ofList value)).map fun args => { r with args }
    | none, cs =>
      if c = 'h' then .error .help
      else if c = 'v' then do shortOptions verb { r with args := ← r.args.setVerbose } cs
      else .error .usage

def Reading.step (verb : Verb) (r : Reading) (arg : String) : Except Stop Reading :=
  match r.pending with
  | some s =>
    if looksLikeOption arg then .error .usage
    else (r.args.set s arg).map fun args => { r with args, pending := none }
  | none =>
    if r.operands || !looksLikeOption arg then (r.args.setTemplate arg).map fun args => { r with args }
    else if arg = "--" then .ok { r with operands := true }
    else match arg.toList with
      | '-' :: '-' :: body => longOption verb r body
      | body => shortOptions verb r (body.drop 1)

def afterVerb (verb : Verb) (rest : List String) : Request :=
  match rest.foldlM (Reading.step verb) {} with
  | .error .help => .help (some verb)
  | .error .usage => .usage
  | .ok r =>
    match r.pending, r.args.template with
    | none, some template => .run verb template r.args
    | _, _ => .usage

def afterHelp : List String → Request
  | [] | ["help"] => .help none
  | ["render"] => .help (some .render)
  | ["check"] => .help (some .check)
  | _ => .usage

def leading (verbose : Bool) : List Char → Except Request Bool
  | [] => .ok verbose
  | 'v' :: cs => if verbose then .error .usage else leading true cs
  | 'h' :: _ => .error (.help none)
  | 'V' :: _ => .error .version
  | _ => .error .usage

/-- Reads the whole command line; `verbose` tells whether that option has been given before the verb. -/
def Request.ofArgs (verbose : Bool) : List String → Request
  | [] => .usage
  | "render" :: rest => afterVerb .render rest
  | "check" :: rest => afterVerb .check rest
  | "help" :: rest => afterHelp rest
  | "--help" :: _ => .help none
  | "--version" :: _ => .version
  | "--verbose" :: rest => if verbose then .usage else ofArgs true rest
  | arg :: rest =>
    match arg.toList with
    | '-' :: c :: cs =>
      if c = '-' then .usage
      else match leading verbose (c :: cs) with
        | .ok verbose => ofArgs verbose rest
        | .error request => request
    | _ => .usage

end Stencil.Command
