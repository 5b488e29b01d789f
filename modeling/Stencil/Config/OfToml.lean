import Stencil.Config.Basic
import Stencil.Toml.Reader

/-! Configurations from TOML. Keys that are absent take their defaults, and unknown ones mean nothing. -/

namespace Stencil.Config

def setting {α : Type} (table : Named Toml) (key : String) (default : α) (f : Toml → Option α) :
    Except Error α :=
  match table.get? key with
  | none => .ok default
  | some v =>
    match f v with
    | some a => .ok a
    | none => .error (.toml ("invalid value for " ++ key))

def string? : Toml → Option String
  | .string s => some s
  | _ => none

def boolean? : Toml → Option Bool
  | .boolean b => some b
  | _ => none

/-- A number that fits a word of 64 bits. -/
def count? : Toml → Option (Option Nat)
  | .integer n => if 0 ≤ n ∧ n < 0x10000000000000000 then some (some n.toNat) else none
  | _ => none

def ofTable (table : Named Toml) : Except Error Config := do
  let d : Config := {}
  return {
    conditionAttr := ← setting table "conditional_attribute" d.conditionAttr string?
    iterationAttr := ← setting table "iteration_attribute" d.iterationAttr string?
    textAttr := ← setting table "text_attribute" d.textAttr string?
    lineBreaks := ← setting table "line_breaks" d.lineBreaks boolean?
    maxSegments := ← setting table "max_path_segments" d.maxSegments count? }

def ofToml (text : String) : Except Error Config := do
  match Toml.read? text with
  | none => throw (.toml "invalid document")
  | some table =>
    let c ← ofTable table
    c.validate
    return c

end Stencil.Config
