/-! Notes that loading and rendering leave behind. Nothing reads them back. Some are left out: those that dump how an
element is treated or what the reader of markup recovered from, and those on configuration files and on the files of the
command line. -/

namespace Stencil

inductive Level
  | trace
  | debug
  | warn
  deriving Repr, DecidableEq

def Level.name : Level → String
  | trace => "trace"
  | debug => "debug"
  | warn => "warn"

structure Note where
  level : Level
  text : String
  deriving Repr, DecidableEq

end Stencil
