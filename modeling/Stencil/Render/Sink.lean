import Stencil.Error.Basic
import Stencil.Text.Utf8

/-! Where rendered chunks go, in the order of the document. -/

namespace Stencil

/-- How chunks are appended to an output. Appending may fail, possibly after taking a part of the chunk. -/
structure Sink (σ : Type) where
  append : String → σ → Except Error Unit × σ

/-- A receiver of bytes. A write takes some of the bytes it is offered, from the first on, and tells how many, or else
why it fails. -/
structure Writer (ω : Type) where
  write : List UInt8 → ω → Except String Nat × ω

structure Written where
  bytes : List UInt8
  room : Option Nat

namespace Writer

variable {ω : Type}

/-- Writes until all bytes are taken or a write fails. A write that takes none of them is a failure too. -/
def writeAll (w : Writer ω) : List UInt8 → ω → Except String Unit × ω
  | [], out => (.ok (), out)
  | b :: bs, out =>
    match w.write (b :: bs) out with
    | (.error detail, out) => (.error detail, out)
    | (.ok 0, out) => (.error "failed to write whole buffer", out)
    | (.ok (n + 1), out) => writeAll w (bs.drop n) out
termination_by bs => bs.length
decreasing_by
  rw [List.length_drop, List.length_cons]
  omega

/-- Takes what there is room for, and fails with `detail` when there is none left. -/
def limited (detail : String) : Writer Written where
  write new out :=
    match out.room with
    | none => (.ok new.length, ⟨out.bytes ++ new, none⟩)
    | some 0 => (.error detail, out)
    | some n => (.ok (min n new.length), ⟨out.bytes ++ new.take n, some (n - new.length)⟩)

end Writer

namespace Sink

def text : Sink String := ⟨fun chunk out => (.ok (), out ++ chunk)⟩

def chunks : Sink (Array String) := ⟨fun chunk out => (.ok (), out.push chunk)⟩

def writing {ω : Type} (w : Writer ω) : Sink ω where
  append chunk out :=
    let (result, out) := w.writeAll (Text.Utf8.encode chunk) out
    (result.mapError .io, out)

def bytes : Sink Written := writing (.limited "sink full")

end Sink
end Stencil
