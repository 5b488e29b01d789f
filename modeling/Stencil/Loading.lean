import Stencil.Config.OfToml
import Stencil.Files
import Stencil.Template

/-! Configurations and templates from files. -/

namespace Stencil

def Config.ofFile (files : Files) (name : String) : Except Error Config :=
  match files.readText name with
  | .error fault => .error (.config ("Failed to read config file '" ++ name ++ "': " ++ fault.message ++
      ". Make sure the file exists and is readable."))
  | .ok text =>
    match Config.ofToml text with
    | .error e => .error (.config ("Failed to parse config file '" ++ name ++ "': " ++ e.message ++
        ". Check TOML syntax."))
    | .ok c => .ok c

def Template.ofFile (files : Files) (name : String) : Except Error Template :=
  match files.readText name with
  | .error fault => .error (.withContext ("Failed to read template '" ++ name ++ "'") (.io fault.message))
  | .ok text => (Template.parse name text).result

end Stencil
