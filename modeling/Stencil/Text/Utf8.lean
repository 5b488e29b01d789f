/-! Reading UTF-8. Bytes that cannot go on with a character end it: each longest piece that some character begins
with counts as one fault. -/

namespace Stencil.Text.Utf8

/-- A character of which `owed` bytes are missing, the next of them between `low` and `high`. -/
structure Pending where
  owed : Nat
  low : Nat
  high : Nat
  bits : Nat

/-- What a byte begins: a whole character, a fault, or a character that more bytes complete. -/
def lead (b : Nat) : List (Option Char) × Option Pending :=
  if b < 0x80 then ([some (Char.ofNat b)], none)
  else if b < 0xc2 ∨ 0xf4 < b then ([none], none)
  else if b < 0xe0 then ([], some ⟨1, 0x80, 0xbf, b - 0xc0⟩)
  else if b < 0xf0 then
    ([], some ⟨2, if b = 0xe0 then 0xa0 else 0x80, if b = 0xed then 0x9f else 0xbf, b - 0xe0⟩)
  else ([], some ⟨3, if b = 0xf0 then 0x90 else 0x80, if b = 0xf4 then 0x8f else 0xbf, b - 0xf0⟩)

def step (p : Option Pending) (byte : UInt8) : List (Option Char) × Option Pending :=
  let b := byte.toNat
  match p with
  | none => lead b
  | some p =>
    if p.low ≤ b ∧ b ≤ p.high then
      let bits := 64 * p.bits + (b - 0x80)
      if p.owed = 1 then ([some (Char.ofNat bits)], none)
      else ([], some ⟨p.owed - 1, 0x80, 0xbf, bits⟩)
    else
      let (chars, next) := lead b
      (none :: chars, next)

/-- The characters of a run of bytes, with `none` for each fault. -/
def chars (p : Option Pending) : List UInt8 → List (Option Char)
  | [] => if p.isSome then [none] else []
  | b :: bs =>
    let (now, p) := step p b
    now ++ chars p bs

def decode? (bytes : List UInt8) : Option String := ((chars none bytes).mapM id).map String.ofList

/-- The text that bytes stand for, with U+FFFD in the place of each fault. -/
def decodeLossy (bytes : List UInt8) : String :=
  String.ofList ((chars none bytes).map (·.getD '\ufffd'))

def encode (s : String) : List UInt8 := s.toUTF8.data.toList

theorem encode_eq (s : String) : encode s = s.toList.flatMap String.utf8EncodeChar := by
  conv => lhs; rw [← String.ofList_toList (s := s)]
  rw [encode, String.toUTF8_eq_toByteArray, String.toByteArray_ofList, List.utf8Encode]
  simp

example : decode? [0x68, 0xc3, 0xa9] = some "hé" ∧ decodeLossy [0x68, 0xe2, 0x82] = "h\ufffd" := by
  decide +kernel

end Stencil.Text.Utf8
