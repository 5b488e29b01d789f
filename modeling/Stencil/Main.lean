import Stencil.Command.Run

/-! The program: reads the files that the arguments name, runs the command on them, and writes what it leaves. -/

open Stencil

/-- Adds what is on disk under a name, if anything is. -/
def loadEntry (files : Files) (name : String) : IO Files := do
  try
    let bytes ← IO.FS.readBinFile name
    return files.set (Route.ofName name) (.file bytes.data.toList)
  catch
    | .inappropriateType .. => return files.set (Route.ofName name) .directory
    | _ => return files

/-- Adds what is on disk under a name and on the way to it. -/
def loadName (files : Files) (name : String) : IO Files := do
  let parts := Route.parts name
  (List.range parts.length).foldlM (fun files n => loadEntry files ("/".intercalate (parts.take (n + 1)))) files

def namesOf : Command.Request → List String
  | .run _ template args => template :: [args.config, args.context, args.output].filterMap id
  | _ => []

def outputOf : Command.Request → Option String
  | .run .render _ args => args.output
  | _ => none

def main (args : List String) : IO UInt32 := do
  let request := Command.Request.ofArgs false args
  let files ← (namesOf request).foldlM loadName ⟨[]⟩
  let (outcome, after) := Command.answer files request
  IO.print outcome.stdout
  IO.eprint outcome.stderr
  if let some name := outputOf request then
    if let .ok bytes := after.read name then
      if after ≠ files then
        IO.FS.writeBinFile name ⟨bytes.toArray⟩
  return outcome.exit.toUInt32
