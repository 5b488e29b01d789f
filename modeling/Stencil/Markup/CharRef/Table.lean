import Stencil.Markup.CharRef.Capitals
import Stencil.Markup.CharRef.SmallFromM
import Stencil.Markup.CharRef.SmallToL

/-! The table of named character references, as character lists and by first letter. -/

namespace Stencil.Markup.CharRef

/-- A name, or the rest of one of which a part has been read, and the text it stands for. -/
structure Row where
  name : List Char
  text : List Char
  deriving Repr, DecidableEq

def table : Char → List (String × String)
  | 'A' => capitalA
  | 'B' => capitalB
  | 'C' => capitalC
  | 'D' => capitalD
  | 'E' => capitalE
  | 'F' => capitalF
  | 'G' => capitalG
  | 'H' => capitalH
  | 'I' => capitalI
  | 'J' => capitalJ
  | 'K' => capitalK
  | 'L' => capitalL
  | 'M' => capitalM
  | 'N' => capitalN
  | 'O' => capitalO
  | 'P' => capitalP
  | 'Q' => capitalQ
  | 'R' => capitalR
  | 'S' => capitalS
  | 'T' => capitalT
  | 'U' => capitalU
  | 'V' => capitalV
  | 'W' => capitalW
  | 'X' => capitalX
  | 'Y' => capitalY
  | 'Z' => capitalZ
  | 'a' => smallA
  | 'b' => smallB
  | 'c' => smallC
  | 'd' => smallD
  | 'e' => smallE
  | 'f' => smallF
  | 'g' => smallG
  | 'h' => smallH
  | 'i' => smallI
  | 'j' => smallJ
  | 'k' => smallK
  | 'l' => smallL
  | 'm' => smallM
  | 'n' => smallN
  | 'o' => smallO
  | 'p' => smallP
  | 'q' => smallQ
  | 'r' => smallR
  | 's' => smallS
  | 't' => smallT
  | 'u' => smallU
  | 'v' => smallV
  | 'w' => smallW
  | 'x' => smallX
  | 'y' => smallY
  | 'z' => smallZ
  | _ => []

/-- The rows of the names that begin with `c`, without that letter. -/
def startingWith (c : Char) : List Row :=
  (table c).map fun (name, text) => ⟨name.toList.drop 1, text.toList⟩

def advance (c : Char) (rows : List Row) : List Row :=
  rows.filterMap fun r =>
    match r.name with
    | d :: name => if c = d then some { r with name } else none
    | [] => none

def complete? (rows : List Row) : Option (List Char) :=
  (rows.find? (·.name.isEmpty)).map Row.text

end Stencil.Markup.CharRef
