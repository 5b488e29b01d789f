import Stencil.Command.Arguments
import Stencil.Command.OutputFile
import Stencil.Error.Chain
import Stencil.Json.Reader
import Stencil.Loading

/-! The command line on a set of files, with logging off: what it prints, how it ends, and the files it leaves. -/

namespace Stencil.Command

structure Outcome where
  exit : Nat
  stdout : String
  stderr : String
  deriving Repr, DecidableEq

/-- A failure of the library, or one of the command line itself. -/
inductive Failure
  | library (e : Error)
  | command (text : String)

def Failure.message : Failure → String
  | library e => "error [" ++ e.code ++ "]: " ++ e.logText ++ "\n"
  | command text => "error [E_CLI]: " ++ text ++ "\n"

def versionText : String := "attrplate 0.1.0\n"

def usageText : Option Verb → String
  | none => "Usage: attrplate [OPTIONS] <COMMAND>\n"
  | some .render => "Usage: attrplate render [OPTIONS] <TEMPLATE>\n"
  | some .check => "Usage: attrplate check [OPTIONS] <TEMPLATE>\n"

def aboutText : Option Verb → String
  | none => "Render and check attribute-driven templates\n"
  | some .render => "Render a template against a JSON context\n"
  | some .check => "Parse a template and check every directive expression\n"

def operandsText : Option Verb → String
  | none =>
    "Commands:\n" ++
    "  render  Render a template against a JSON context\n" ++
    "  check   Parse a template and check every directive expression\n" ++
    "  help    Print this message or the help of the given subcommand(s)\n"
  | some _ =>
    "Arguments:\n" ++
    "  <TEMPLATE>  Template file\n"

def optionsText : Option Verb → String
  | none =>
    "  -v, --verbose  Verbose output\n" ++
    "  -h, --help     Print help\n" ++
    "  -V, --version  Print version\n"
  | some .render =>
    "  -c, --context <CONTEXT>  JSON file holding the context object (empty context if omitted)\n" ++
    "  -v, --verbose            Verbose output\n" ++
    "      --config <CONFIG>    TOML rendering configuration\n" ++
    "  -o, --output <OUTPUT>    Output file path (stdout if omitted)\n" ++
    "  -h, --help               Print help\n"
  | some .check =>
    "      --config <CONFIG>  TOML rendering configuration\n" ++
    "  -v, --verbose          Verbose output\n" ++
    "  -h, --help             Print help\n"

def helpText (topic : Option Verb) : String :=
  "\n".intercalate [aboutText topic, usageText topic, operandsText topic, "Options:\n" ++ optionsText topic]

def ofLibrary {α : Type} (x : Except Error α) : Except Failure α := x.mapError .library

def loadConfig (files : Files) (config : Option String) : Except Error Config :=
  match config with
  | none => .ok {}
  | some name => Config.ofFile files name

def loadTemplate (files : Files) (template : String) (config : Option String) : Except Failure Template :=
  ofLibrary do
    let c ← loadConfig files config
    (← Template.ofFile files template).withConfig c

def loadScope (files : Files) (context : Option String) : Except Failure Scope :=
  match context with
  | none => .ok .empty
  | some name =>
    match files.readText name with
    | .error fault => .error (.command ("reading context " ++ name ++ ": " ++ fault.message))
    | .ok text =>
      match Json.read text with
      | .error p => .error (.command ("parsing context " ++ name ++ ": " ++ p.message))
      | .ok j => ofLibrary (Scope.ofJson [] j)

def Outcome.ofResult {α : Type} (stdout : String) : Except Failure α → Outcome
  | .ok _ => ⟨0, stdout, ""⟩
  | .error f => ⟨1, stdout, f.message⟩

def load (files : Files) (template : String) (args : Arguments) : Except Failure (Template × Scope) := do
  return (← loadTemplate files template args.config, ← loadScope files args.context)

/-- Everything is loaded before the output file is made. The file is closed however the rendering ends, so that what
was rendered before a failure is kept. -/
def render (files : Files) (template : String) (args : Arguments) : Outcome × Files :=
  match load files template args with
  | .error f => (.ofResult "" (.error f : Except Failure Unit), files)
  | .ok (t, scope) =>
    match args.output with
    | none =>
      let (result, canvas) := t.render .text scope ""
      (.ofResult canvas.out (ofLibrary result), files)
    | some name =>
      match OutputFile.create files name with
      | .error fault =>
        (.ofResult "" (.error (.command ("creating output " ++ name ++ ": " ++ fault.message)) :
          Except Failure Unit), files)
      | .ok file =>
        let (result, canvas) := t.render (.writing OutputFile.writer) scope file
        (.ofResult "" (ofLibrary result), canvas.out.close)

def check (files : Files) (template : String) (args : Arguments) : Outcome :=
  let checked : Except Failure Template := do
    let t ← loadTemplate files template args.config
    ofLibrary t.validate
    return t
  match checked with
  | .ok t => ⟨0, template ++ ": ok (" ++ toString t.document.elements.length ++ " elements)\n", ""⟩
  | .error f => ⟨1, "", f.message⟩

def answer (files : Files) : Request → Outcome × Files
  | .run .render template args => render files template args
  | .run .check template args => (check files template args, files)
  | .help topic => (⟨0, helpText topic, ""⟩, files)
  | .version => (⟨0, versionText, ""⟩, files)
  | .usage => (⟨2, "", usageText none⟩, files)

def run (files : Files) (args : List String) : Outcome × Files := answer files (Request.ofArgs false args)

end Stencil.Command
