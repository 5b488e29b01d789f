/-! Hexadecimal digits. -/

namespace Stencil.Text

def hexDigit? (c : Char) : Option Nat :=
  if c.isDigit then some (c.toNat - '0'.toNat)
  else if 'a' ≤ c ∧ c ≤ 'f' then some (c.toNat - 'a'.toNat + 10)
  else if 'A' ≤ c ∧ c ≤ 'F' then some (c.toNat - 'A'.toNat + 10)
  else none

def hexNumber (digits : List Char) : Nat := digits.foldl (fun n c => 16 * n + (hexDigit? c).getD 0) 0

/-- The lowercase digits of a number, without leading zeros. -/
def hex (n : Nat) : String := String.ofList (Nat.toDigits 16 n)

example : hexNumber ['1', 'f', 'A'] = 0x1fa ∧ hex 0x1fa = "1fa" := by decide +kernel

end Stencil.Text
