import Stencil.Files
import Stencil.Render.Sink

/-! A file that is written through a buffer. What is small waits in the buffer, and goes to the file when there is no
room for more. -/

namespace Stencil

/-- The files with one of them open, and the bytes that have not gone to it yet. -/
structure OutputFile where
  files : Files
  route : Route
  buffer : List UInt8

namespace OutputFile

def capacity : Nat := 8192

def create (files : Files) (name : String) : Except FileFault OutputFile := do
  let route ← files.vacancy name
  return ⟨files.write route "", route, []⟩

def flush (o : OutputFile) : OutputFile := ⟨o.files.append o.route o.buffer, o.route, []⟩

/-- Takes bytes. They wait in the buffer if that leaves room in it. If not, the buffer goes to the file before them,
unless they fill it exactly, and as many as it has room for do not wait at all. -/
def put (o : OutputFile) (new : List UInt8) : OutputFile :=
  let spare := capacity - o.buffer.length
  if new.length < spare then { o with buffer := o.buffer ++ new }
  else
    let o := if spare < new.length then o.flush else o
    if capacity ≤ new.length then { o with files := o.files.append o.route new }
    else { o with buffer := o.buffer ++ new }

def writer : Writer OutputFile := ⟨fun new o => (.ok new.length, o.put new)⟩

def close (o : OutputFile) : Files := o.flush.files

end OutputFile
end Stencil
