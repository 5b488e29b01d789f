/-! The shortest decimal that reads back as a given double. A positive finite double is `m · 2 ^ q`; the reals
that round to it form an interval around it, ends included when `m` is even. Among the multiples of powers of ten
in that interval the shortest is the one of the highest power, and of two such neighbours the nearer. -/

namespace Stencil.Decimal

/-- A positive double `significand · 2 ^ exponent`. `atPower` says that the gap below it is half the gap above. -/
structure Binary where
  significand : Nat
  exponent : Int
  atPower : Bool
  deriving Repr, DecidableEq

inductive Class
  | nan
  | infinite (negative : Bool)
  | zero (negative : Bool)
  | finite (negative : Bool) (b : Binary)
  deriving Repr, DecidableEq

/-- The bit that every significand has unless the double is very small. -/
def leadingBit : Nat := 0x10000000000000

def Class.ofBits (bits : Nat) : Class :=
  let negative := bits >>> 63 = 1
  let field := (bits >>> 52) % 2048
  let fraction := bits % leadingBit
  if field = 2047 then
    if fraction = 0 then .infinite negative else .nan
  else if field = 0 then
    if fraction = 0 then .zero negative else .finite negative ⟨fraction, -1074, false⟩
  else .finite negative ⟨leadingBit + fraction, Int.ofNat field - 1075, fraction = 0 ∧ field ≠ 1⟩

def Class.ofFloat (x : Float) : Class := ofBits x.toBits.toNat

/-- `2 ^ n` over `1`, or `1` over `2 ^ (-n)`, and so for any base. -/
def ratioPow (base : Nat) (n : Int) : Nat × Nat :=
  (Nat.pow base n.toNat, Nat.pow base (-n).toNat)

/-- A quarter of the last binary place of `b`, and the step of the grid `10 ^ k`, in a unit that both are multiples of. -/
def Binary.scales (b : Binary) (k : Int) : Nat × Nat :=
  let (up, down) := ratioPow 2 (b.exponent - 2)
  let (grid, part) := ratioPow 10 k
  (up * part, grid * down)

def Binary.isInside (b : Binary) (quarter step n : Nat) : Bool :=
  let low := (4 * b.significand - if b.atPower then 1 else 2) * quarter
  let high := (4 * b.significand + 2) * quarter
  if b.significand % 2 = 0 then low ≤ n * step && n * step ≤ high
  else low < n * step && n * step < high

/-- The multiple of `10 ^ k` to show for `b`, if one of its two neighbours on that grid rounds to `b`. -/
def Binary.onGrid? (b : Binary) (k : Int) : Option Nat :=
  let (quarter, step) := b.scales k
  let value := 4 * b.significand * quarter
  let n := value / step
  let above := 2 * (value % step) ≥ step
  match b.isInside quarter step n, b.isInside quarter step (n + 1) with
  | true, true => some (if above then n + 1 else n)
  | true, false => some n
  | false, true => some (n + 1)
  | false, false => none

/-- An exponent of ten that is above every grid with a multiple that rounds to `b`. -/
def Binary.topGrid (b : Binary) : Int :=
  (b.exponent + Nat.log2 b.significand + 1) * 30103 / 100000 + 2

def Binary.search (b : Binary) : Nat → Int → Nat × Int
  | 0, k => (b.significand, k)
  | fuel + 1, k =>
    match b.onGrid? k with
    | some n => (n, k)
    | none => b.search fuel (k - 1)

/-- Digits `n` and a power `k` with `n · 10 ^ k` the shortest decimal of `b`. Seventeen digits always
suffice, and `topGrid` is at most three places above the first of them. -/
def Binary.shortest (b : Binary) : Nat × Int := b.search 24 b.topGrid

example : (Binary.mk leadingBit (-52) true).shortest = (1, 0) := by decide +kernel
example : (Binary.mk 1 (-1074) false).shortest = (5, -324) := by decide +kernel
example : (Binary.mk leadingBit 11 true).shortest = (9223372036854776, 3) := by decide +kernel

end Stencil.Decimal
