import Stencil.Proofs.Decimal.Printing
import Stencil.Value.Text

/-! What is printed for a value, told kind by kind. -/

namespace Stencil.Value

/-- Null prints as nothing, a list as its items in brackets, and a host object as what it says itself. -/
inductive PrintsAs : Value → String → Prop
  | null : PrintsAs null ""
  | true : PrintsAs (bool true) "true"
  | false : PrintsAs (bool false) "false"
  | int (n : Int64) : PrintsAs (int n) (toString n.toInt)
  | float {x : Float} {text : String} (h : Decimal.Prints x.toModel.unpack text.toList) : PrintsAs (float x) text
  | string (s : String) : PrintsAs (string s) s
  | list {items : List Value} {texts : List String} (each : List.Forall₂ PrintsAs items texts) :
      PrintsAs (list items) ("[" ++ ", ".intercalate texts ++ "]")
  | object (o : Object Value) : PrintsAs (object o) o.text

mutual

theorem printsAs_text : ∀ v : Value, v.PrintsAs v.text
  | null => .null
  | bool true => .true
  | bool false => .false
  | int n => .int n
  | float _ => .float (Decimal.text_plain_iff.1 rfl)
  | string s => .string s
  | list items => .list (printsAs_texts items)
  | object o => .object o

theorem printsAs_texts : ∀ vs : List Value, List.Forall₂ PrintsAs vs (texts vs)
  | [] => .nil
  | v :: vs => .cons (printsAs_text v) (printsAs_texts vs)

end

mutual

theorem text_of_printsAs : ∀ {v : Value} {s : String}, v.PrintsAs s → v.text = s
  | null, _, .null => rfl
  | bool _, _, .true => rfl
  | bool _, _, .false => rfl
  | int _, _, .int _ => rfl
  | float _, _, .float h => Decimal.text_plain_iff.2 h
  | string _, _, .string _ => rfl
  | list _, _, .list each => by rw [text, texts_of_printsAs each]
  | object _, _, .object _ => rfl

theorem texts_of_printsAs : ∀ {vs : List Value} {ss : List String}, List.Forall₂ PrintsAs vs ss → texts vs = ss
  | [], _, .nil => rfl
  | _ :: _, _, .cons first rest => by rw [texts, text_of_printsAs first, texts_of_printsAs rest]

end

end Stencil.Value
