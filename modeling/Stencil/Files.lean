import Stencil.Text.Utf8

/-! Files by name, as far as a run reads and writes them. A name is followed part by part, and every part but the
last has to be a directory. -/

namespace Stencil

inductive Entry
  | file (bytes : List UInt8)
  | directory
  deriving Repr, DecidableEq

inductive FileFault
  | notFound
  | notDirectory
  | isDirectory
  | nameTooLong
  | nullInName
  | notUtf8
  deriving Repr, DecidableEq

def FileFault.message : FileFault → String
  | notFound => "No such file or directory (os error 2)"
  | notDirectory => "Not a directory (os error 20)"
  | isDirectory => "Is a directory (os error 21)"
  | nameTooLong => "File name too long (os error 36)"
  | nullInName => "file name contained an unexpected NUL byte"
  | notUtf8 => "stream did not contain valid UTF-8"

/-- A place among the files, by the directories on the way to it. `/` stands for the top directory where it comes
first, and `..` there for the one above the directory that names start from. -/
abbrev Route := List String

namespace Route

def up (route : Route) : Route :=
  match route.getLast? with
  | none | some ".." => route ++ [".."]
  | some "/" => route
  | some _ => route.dropLast

def extend (route : Route) (part : String) : Route :=
  if part = "" ∨ part = "." then route
  else if part = ".." then route.up
  else route ++ [part]

/-- The parts of a name, between its slashes. -/
def parts (name : String) : List String := (name.toList.splitOn '/').map String.ofList

/-- Where names of this form start. -/
def origin (name : String) : Route := if name.startsWith "/" then ["/"] else []

def ofName (name : String) : Route := (parts name).foldl extend (origin name)

/-- Whether a place is a directory whatever the files are. -/
def isOuter (route : Route) : Bool := route = ["/"] || route.all (· = "..")

end Route

structure Files where
  entries : List (Route × Entry)
  deriving Repr, DecidableEq

namespace Files

/-- How long a name and each part of it may be, in bytes. -/
def maxName : Nat := 4095

def maxPart : Nat := 255

def entry? (files : Files) (route : Route) : Option Entry :=
  match files.entries.lookup route with
  | some e => some e
  | none => if route.isOuter || files.entries.any (fun (r, _) => route.isPrefixOf r) then some .directory else none

/-- Follows one part of a name from a place, which has to be a directory. -/
def enter (files : Files) (route : Route) (part : String) : Except FileFault Route :=
  match files.entry? route with
  | none => .error .notFound
  | some (.file _) => .error .notDirectory
  | some .directory => if maxPart < part.utf8ByteSize then .error .nameTooLong else .ok (route.extend part)

def follow (files : Files) (name : String) (parts : List String) : Except FileFault Route :=
  if '\x00' ∈ name.toList then .error .nullInName
  else if maxName < name.utf8ByteSize then .error .nameTooLong
  else parts.foldlM files.enter (Route.origin name)

def read (files : Files) (name : String) : Except FileFault (List UInt8) := do
  match files.entry? (← files.follow name (Route.parts name)) with
  | some (.file bytes) => return bytes
  | some .directory => throw .isDirectory
  | none => throw .notFound

def readText (files : Files) (name : String) : Except FileFault String := do
  match Text.Utf8.decode? (← files.read name) with
  | some text => return text
  | none => throw .notUtf8

/-- Puts an entry at a route, in the place of what is there. -/
def set (files : Files) (route : Route) (e : Entry) : Files :=
  ⟨(route, e) :: files.entries.filter (·.1 ≠ route)⟩

/-- The place for a file to be made, in a directory that there is. A name that ends in a slash is none for a
file. -/
def vacancy (files : Files) (name : String) : Except FileFault Route := do
  match (Route.parts name).reverse.dropWhile (· = "") with
  | [] => throw .isDirectory
  | last :: before =>
    let directory ← files.follow name (before.reverse ++ ["."])
    if (Route.parts name).getLast? = some "" then throw .isDirectory
    let route ← files.enter directory last
    if files.entry? route = some .directory then throw .isDirectory
    return route

def write (files : Files) (route : Route) (text : String) : Files :=
  files.set route (.file (Text.Utf8.encode text))

def append (files : Files) (route : Route) (new : List UInt8) : Files :=
  match files.entries.lookup route with
  | some (.file old) => files.set route (.file (old ++ new))
  | _ => files.set route (.file new)

end Files
end Stencil
