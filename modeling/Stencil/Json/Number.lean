import Stencil.Decimal.Reading
import Stencil.Json.Basic

/-! JSON numbers. Whole numbers of 64 bits are exact. Any other number is `significand · 10 ^ exponent` with a
significand of 64 bits, further digits being dropped, and that product is formed in floating point by one
multiplication or division, so its last bit need not be the nearest one. -/

namespace Stencil.Json.Number

structure Parts where
  negative : Bool
  whole : List Char
  fraction : Option (List Char)
  exponent : Option (Bool × List Char)

def exponentPart? : List Char → Option (Option (Bool × List Char))
  | [] => some none
  | e :: cs =>
    if e = 'e' ∨ e = 'E' then
      let (negative, ds) := match cs with
        | '-' :: ds => (true, ds)
        | '+' :: ds => (false, ds)
        | ds => (false, ds)
      if ds.isEmpty || !ds.all Char.isDigit then none else some (some (negative, ds))
    else none

/-- An optional minus, digits without a leading zero, an optional fraction and an optional exponent. -/
def Parts.ofChars? (cs : List Char) : Option Parts :=
  let (negative, cs) := match cs with
    | '-' :: cs => (true, cs)
    | cs => (false, cs)
  let whole := cs.takeWhile Char.isDigit
  let rest := cs.dropWhile Char.isDigit
  match whole with
  | [] => none
  | '0' :: _ :: _ => none
  | _ =>
    match rest with
    | '.' :: r =>
      let fraction := r.takeWhile Char.isDigit
      if fraction.isEmpty then none
      else (exponentPart? (r.dropWhile Char.isDigit)).map (⟨negative, whole, some fraction, ·⟩)
    | r => (exponentPart? r).map (⟨negative, whole, none, ·⟩)

def maxWord : Nat := 0xffffffffffffffff

/-- Takes digits as long as the number fits a word, and returns those that are left. -/
def absorb (n : Nat) : List Char → Nat × List Char
  | [] => (n, [])
  | c :: cs =>
    let n' := 10 * n + (c.toNat - '0'.toNat)
    if n' ≤ maxWord then absorb n' cs else (n, c :: cs)

def powerOfTen (n : Nat) : Float := Float.ofScientific 1 false n

/-- `x · 10 ^ e` in floating point, unless it overflows. -/
def scale? (x : Float) (e : Int) : Option Float :=
  if e.natAbs ≤ 308 then
    if 0 ≤ e then
      let y := x * powerOfTen e.natAbs
      if y.isInf then none else some y
    else some (x / powerOfTen e.natAbs)
  else if x == 0.0 then some x
  else if 0 ≤ e then none
  else scale? (x / powerOfTen 308) (e + 308)
termination_by e.natAbs
decreasing_by omega

/-- The exponent as written, or the value that one of more than 32 bits gives at once: zero where the
significand is zero or the exponent negative, and nothing else. -/
def scaled? (significand : Nat) (places : Int) : Option (Bool × List Char) → Option Float
  | none => scale? significand.toUInt64.toFloat places
  | some (negative, ds) =>
    let e := Decimal.natOfDigits ds
    if 0x80000000 ≤ e then
      if significand ≠ 0 ∧ !negative then none else some 0.0
    else scale? significand.toUInt64.toFloat (if negative then places - e else places + e)

def Parts.value? (p : Parts) : Option Json :=
  let (n, extra) := absorb 0 p.whole
  if p.fraction.isNone && p.exponent.isNone && extra.isEmpty &&
      (if p.negative then 0 < n && n ≤ 0x8000000000000000 else n < 0x8000000000000000) then
    some (.int (Int64.ofInt (if p.negative then -n else n)))
  else
    let (significand, left) := absorb n (p.fraction.getD [])
    let places : Int := (extra.length : Int) - ((p.fraction.getD []).length - left.length : Nat)
    (scaled? significand places p.exponent).map fun x => .float (if p.negative then -x else x)

def ofChars (cs : List Char) : Except Problem Json :=
  match Parts.ofChars? cs with
  | none => .error (.badNumber (String.ofList cs))
  | some parts =>
    match parts.value? with
    | none => .error (.outOfRange (String.ofList cs))
    | some v => .ok v

end Stencil.Json.Number
