import Stencil.Decimal.Layout
import Stencil.Text.Quoted
import Stencil.Value.Basic

/-! The two texts of a value: `text`, which templates put out, and `structureText`, which shows its kind too. -/

namespace Stencil.Value

mutual

def text : Value → String
  | null => ""
  | bool b => if b then "true" else "false"
  | int n => toString n.toInt
  | float x => Decimal.Layout.plain.text x
  | string s => s
  | list items => "[" ++ ", ".intercalate (texts items) ++ "]"
  | object o => o.text

def texts : List Value → List String
  | [] => []
  | v :: vs => text v :: texts vs

end

mutual

def structureText : Value → String
  | null => "Null"
  | bool b => "Bool(" ++ (if b then "true" else "false") ++ ")"
  | int n => "Int(" ++ toString n.toInt ++ ")"
  | float x => "Float(" ++ Decimal.Layout.exact.text x ++ ")"
  | string s => "String(" ++ Text.quote s ++ ")"
  | list items => "List([" ++ ", ".intercalate (structureTexts items) ++ "])"
  | object o => "Object(" ++ o.structureText ++ ")"

def structureTexts : List Value → List String
  | [] => []
  | v :: vs => structureText v :: structureTexts vs

end

end Stencil.Value
