import Stencil.Decimal.Shortest

/-! The text of a double: its shortest decimal, laid out with or without an exponent. -/

namespace Stencil.Decimal

structure Layout where
  /-- Numbers are written with an exponent unless their scientific exponent is in this range. -/
  positional : Option (Int × Int)
  /-- Whether a whole number ends in `.0`. -/
  keepsPoint : Bool

/-- No exponent, and no point in a whole number. -/
def Layout.plain : Layout := ⟨none, false⟩

/-- Positional from `0.0001` to below `10 ^ 16`, and never without a point there. -/
def Layout.exact : Layout := ⟨some (-4, 15), true⟩

def zeros (n : Nat) : List Char := List.replicate n '0'

def Layout.write (l : Layout) (digits : List Char) (k : Int) : List Char :=
  if 0 ≤ k then
    digits ++ zeros k.toNat ++ if l.keepsPoint then ['.', '0'] else []
  else
    let places := (-k).toNat
    if digits.length ≤ places then '0' :: '.' :: zeros (places - digits.length) ++ digits
    else digits.take (digits.length - places) ++ '.' :: digits.drop (digits.length - places)

/-- `digits · 10 ^ k` with one digit before the point. -/
def scientific (digits : List Char) (k : Int) : List Char :=
  let exponent := (toString (k + digits.length - 1)).toList
  match digits with
  | [d] => d :: 'e' :: exponent
  | d :: ds => d :: '.' :: ds ++ 'e' :: exponent
  | [] => []

def Layout.finite (l : Layout) (n : Nat) (k : Int) : List Char :=
  let digits := Nat.toDigits 10 n
  let exponent := k + digits.length - 1
  match l.positional with
  | some (low, high) => if low ≤ exponent ∧ exponent ≤ high then l.write digits k else scientific digits k
  | none => l.write digits k

def signed (negative : Bool) (s : List Char) : List Char := if negative then '-' :: s else s

def Layout.ofClass (l : Layout) : Class → List Char
  | .nan => "NaN".toList
  | .infinite negative => signed negative "inf".toList
  | .zero negative => signed negative (l.write ['0'] 0)
  | .finite negative b => signed negative (l.finite b.shortest.1 b.shortest.2)

def Layout.text (l : Layout) (x : Float) : String := String.ofList (l.ofClass (.ofFloat x))

example : Layout.plain.finite 15 (-1) = "1.5".toList ∧ Layout.plain.finite 1 21 = "1000000000000000000000".toList :=
  by decide +kernel
example : Layout.exact.finite 15 (-8) = "1.5e-7".toList ∧ Layout.exact.finite 2 0 = "2.0".toList :=
  by decide +kernel

end Stencil.Decimal
