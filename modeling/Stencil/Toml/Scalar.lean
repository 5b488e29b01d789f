import Stencil.Decimal.Reading
import Stencil.Text.Hex
import Stencil.Toml.Basic

/-! TOML values that are written without quotes: numbers, booleans, dates and times. -/

namespace Stencil.Toml

/-- Digits without the underscores that may stand between them. -/
def ungroup? (isDigit : Char → Bool) : List Char → Option (List Char)
  | [] => none
  | [c] => if isDigit c then some [c] else none
  | c :: '_' :: d :: rest => if isDigit c then (ungroup? isDigit (d :: rest)).map (c :: ·) else none
  | c :: rest => if isDigit c then (ungroup? isDigit rest).map (c :: ·) else none

def digitsIn (base : Nat) (cs : List Char) : Option Int :=
  let isDigit := fun c => (Text.hexDigit? c).any (· < base)
  (ungroup? isDigit cs).map fun ds => ds.foldl (fun n c => base * n + (Text.hexDigit? c).getD 0) (0 : Nat)

def sign (cs : List Char) : Bool × List Char :=
  match cs with
  | '-' :: cs => (true, cs)
  | '+' :: cs => (false, cs)
  | cs => (false, cs)

def decimal? (cs : List Char) : Option (List Char) :=
  match ungroup? Char.isDigit cs with
  | some ('0' :: _ :: _) => none
  | ds => ds

/-- Whole numbers, of at most 128 bits. -/
def integer? (cs : List Char) : Option Int :=
  let n := match cs with
    | '0' :: 'x' :: ds => digitsIn 16 ds
    | '0' :: 'o' :: ds => digitsIn 8 ds
    | '0' :: 'b' :: ds => digitsIn 2 ds
    | cs =>
      let (negative, ds) := sign cs
      (decimal? ds).map fun ds => if negative then -Decimal.natOfDigits ds else Decimal.natOfDigits ds
  n.filter fun n =>
    -0x80000000000000000000000000000000 ≤ n && n < 0x100000000000000000000000000000000

/-- A number with a fraction, an exponent or both, that a double can hold. -/
def decimalFloat? (cs : List Char) : Option Float := do
  let isMark := fun c => c = '.' || c = 'e' || c = 'E'
  let whole ← decimal? (cs.takeWhile fun c => !isMark c)
  let rest := cs.dropWhile fun c => !isMark c
  let (fraction, rest) ← match rest with
    | '.' :: r => (ungroup? Char.isDigit (r.takeWhile fun c => !isMark c)).map (·, r.dropWhile fun c => !isMark c)
    | r => some ([], r)
  let e ← match rest with
    | [] => if fraction.isEmpty then none else some 0
    | '.' :: _ => none
    | _ :: r =>
      let (negative, ds) := sign r
      (ungroup? Char.isDigit ds).map fun ds => if negative then -(Decimal.natOfDigits ds : Int) else Decimal.natOfDigits ds
  let x := Decimal.scale (Decimal.natOfDigits (whole ++ fraction)) (e - fraction.length)
  if x.isInf then none else some x

def float? (cs : List Char) : Option Float :=
  let (negative, cs) := sign cs
  let x := match String.ofList cs with
    | "inf" => some (1.0 / 0.0)
    | "nan" => some (0.0 / 0.0)
    | _ => decimalFloat? cs
  x.map fun x => if negative then -x else x

/-- A number of exactly `n` digits, between two bounds. -/
def field? (n low high : Nat) (cs : List Char) : Option (Nat × List Char) :=
  let ds := cs.take n
  let v := Decimal.natOfDigits ds
  if ds.length = n && ds.all Char.isDigit && low ≤ v && v ≤ high then some (v, cs.drop n) else none

def mark? (c : Char) : List Char → Option (List Char)
  | d :: rest => if c = d then some rest else none
  | [] => none

def daysIn (year month : Nat) : Nat :=
  if month = 2 then
    if year % 4 = 0 ∧ (year % 100 ≠ 0 ∨ year % 400 = 0) then 29 else 28
  else if month = 4 ∨ month = 6 ∨ month = 9 ∨ month = 11 then 30 else 31

def date? (cs : List Char) : Option (List Char) := do
  let (year, cs) ← field? 4 0 9999 cs
  let (month, cs) ← field? 2 1 12 (← mark? '-' cs)
  let (_, cs) ← field? 2 1 (daysIn year month) (← mark? '-' cs)
  return cs

def time? (cs : List Char) : Option (List Char) := do
  let (_, cs) ← field? 2 0 23 cs
  let (_, cs) ← field? 2 0 59 (← mark? ':' cs)
  match cs with
  | ':' :: cs =>
    let (_, cs) ← field? 2 0 60 cs
    match cs with
    | '.' :: d :: cs => if d.isDigit then some (cs.dropWhile Char.isDigit) else none
    | cs => some cs
  | cs => some cs

def isOffset (cs : List Char) : Bool :=
  match cs with
  | ['Z'] | ['z'] => true
  | c :: cs =>
    (c = '+' || c = '-') &&
      (do
        let (_, cs) ← field? 2 0 23 cs
        let (_, cs) ← field? 2 0 59 (← mark? ':' cs)
        return cs) == some []
  | [] => false

def isDate (cs : List Char) : Bool := date? cs == some []

/-- A date, a time, or both with an offset if there is one. -/
def isDatetime (cs : List Char) : Bool :=
  match date? cs with
  | some [] => true
  | some (c :: cs) =>
    (c = 'T' || c = 't' || c = ' ') &&
      match time? cs with
      | some [] => true
      | some cs => isOffset cs
      | none => false
  | none => time? cs == some []

def scalar? (cs : List Char) : Option Toml :=
  match String.ofList cs with
  | "true" => some (.boolean true)
  | "false" => some (.boolean false)
  | text =>
    if isDatetime cs then some (.datetime text)
    else ((integer? cs).map .integer).or ((float? cs).map .float)

end Stencil.Toml
