import Stencil.Text.Blank

/-! The attributes of a start tag as the source declares them: their names in order, each with whether a value
was given. This reading knows all blanks, not only those of HTML. -/

namespace Stencil.Markup

abbrev Declared := List Char × Bool

inductive AttrScan
  | between
  | name (name : List Char)
  | afterName (name : List Char)
  | beforeValue (name : List Char)
  | quoted (name : List Char) (quote : Char)
  | unquoted (name : List Char)
  deriving Repr, DecidableEq

namespace AttrScan

/-- What an attribute adds to the declared ones. An `=` without a name before it declares nothing. -/
def declare (name : List Char) (hasValue : Bool) : List Declared :=
  if name.isEmpty then [] else [(name, hasValue)]

/-- A character where an attribute or the end of the tag may come. Nothing follows the end. -/
def between? (c : Char) : Option AttrScan :=
  if Text.isBlank c || c = '/' then some .between
  else if c = '>' then none
  else if c = '=' then some (.beforeValue [])
  else some (.name [c.toLower])

/-- The attribute that a character completes, and the next state, or none at the end of the tag. -/
def step (s : AttrScan) (c : Char) : List Declared × Option AttrScan :=
  match s with
  | between => ([], between? c)
  | name n =>
    if Text.isBlank c then ([], some (afterName n))
    else if c = '=' then ([], some (beforeValue n))
    else if c = '/' || c = '>' then (declare n false, between? c)
    else ([], some (name (n ++ [c.toLower])))
  | afterName n =>
    if Text.isBlank c then ([], some (afterName n))
    else if c = '=' then ([], some (beforeValue n))
    else (declare n false, between? c)
  | beforeValue n =>
    if Text.isBlank c then ([], some (beforeValue n))
    else if c = '"' || c = '\'' then ([], some (quoted n c))
    else if c = '>' then (declare n true, none)
    else ([], some (unquoted n))
  | quoted n q => if c = q then (declare n true, some between) else ([], some (quoted n q))
  | unquoted n =>
    if Text.isBlank c then (declare n true, some between)
    else if c = '>' then (declare n true, none)
    else ([], some (unquoted n))

def finish : AttrScan → List Declared
  | between => []
  | name n | afterName n => declare n false
  | beforeValue n | quoted n _ | unquoted n => declare n true

def run (s : AttrScan) : List Char → List Declared × List Char
  | [] => (s.finish, [])
  | c :: cs =>
    match s.step c with
    | (new, none) => (new, cs)
    | (new, some s) =>
      let (later, rest) := s.run cs
      (new ++ later, rest)

theorem run_suffix (s : AttrScan) (cs : List Char) : (s.run cs).2 <:+ cs := by
  induction cs generalizing s with
  | nil => exact List.suffix_refl _
  | cons c cs ih =>
    unfold run
    split
    · exact List.suffix_cons c cs
    · exact (ih _).trans (List.suffix_cons c cs)

end AttrScan

def declared (s : List Char) : List Declared × List Char := AttrScan.between.run s

/-- Puts attributes into the order in which they are declared, at the first declaration of each. Those declared
without a value lose theirs, and those that are not declared follow in their own order. -/
def inDeclaredOrder {α : Type} [BEq α] (values : List (α × List Char)) :
    List (α × Bool) → List (α × Option (List Char))
  | [] => values.map fun (name, v) => (name, some v)
  | (name, hasValue) :: rest =>
    match values.lookup name with
    | some v =>
      (name, if hasValue then some v else none) :: inDeclaredOrder (values.filter (·.1 != name)) rest
    | none => inDeclaredOrder values rest

end Stencil.Markup
