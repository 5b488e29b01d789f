/-! Property paths, as in `${student.address.city}`, and what directives are made of. -/

namespace Stencil

/-- One step after the root name of a path. -/
inductive Segment
  | property (name : String)
  /-- A call of an accessor without arguments. -/
  | call (name : String)
  deriving Repr, DecidableEq

structure Path where
  root : String
  segments : List Segment
  deriving Repr, DecidableEq

/-- An iteration directive, as in `student: ${students}`. -/
structure Iteration where
  variableName : String
  source : Path
  deriving Repr, DecidableEq

inductive Condition
  | literal (b : Bool)
  | path (p : Path)
  deriving Repr, DecidableEq

namespace Segment

/-- The segment as messages name it. -/
def label : Segment → String
  | property name => name
  | call name => name ++ "()"

def text (s : Segment) : String := "." ++ s.label

end Segment

def Path.text (p : Path) : String :=
  "$\x7b" ++ p.root ++ String.join (p.segments.map Segment.text) ++ "\x7d"

end Stencil
