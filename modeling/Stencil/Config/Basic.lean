import Stencil.Directive.Grammar
import Stencil.Error.Basic

/-! How templates are read and rendered: the names of the three directive attributes, line breaks, and how long
a path may be. -/

namespace Stencil

structure Config where
  conditionAttr : String := "t:if"
  iterationAttr : String := "t:each"
  textAttr : String := "t:text"
  /-- Puts a newline after each opening tag and each text. -/
  lineBreaks : Bool := false
  /-- The most segments a path may have after its root. -/
  maxSegments : Option Nat := none
  deriving Repr, DecidableEq

namespace Config

/-- The directive attributes, with the keys under which a configuration file names them. -/
def attrs (c : Config) : List (String × String) :=
  [("conditional_attribute", c.conditionAttr), ("iteration_attribute", c.iterationAttr),
   ("text_attribute", c.textAttr)]

def isDirective (c : Config) (name : String) : Bool :=
  name = c.conditionAttr || name = c.iterationAttr || name = c.textAttr

def pathLimit (c : Config) : PathLimit := ⟨c.maxSegments⟩

def blankAttr? (c : Config) : Option String :=
  (c.attrs.find? fun (_, name) => (Text.trim name.toList).isEmpty).map Prod.fst

def hasDistinctAttrs (c : Config) : Bool :=
  c.conditionAttr ≠ c.iterationAttr && c.conditionAttr ≠ c.textAttr && c.iterationAttr ≠ c.textAttr

/-- Refuses blank and equal attribute names, and a limit that allows no segment. -/
def validate (c : Config) : Except Error Unit :=
  match c.blankAttr? with
  | some key => .error (.config (key ++ " must not be empty"))
  | none =>
    if !c.hasDistinctAttrs then .error (.config "directive attribute names must be distinct")
    else if c.maxSegments = some 0 then .error (.config "max_path_segments must be at least 1")
    else .ok ()

end Config
end Stencil
