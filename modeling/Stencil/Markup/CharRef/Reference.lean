import Stencil.Markup.CharRef.Table
import Stencil.Markup.Event
import Stencil.Text.Hex

/-! Reading a character reference, from the character after `&` on. Of the names that fit, the longest is taken.
What turns out to be no reference stays as it is written. -/

namespace Stencil.Markup

inductive Reference
  | start
  /-- A name: what has been read of it, the rows that still fit, and the longest name without a semicolon so
  far, as its text and what has been read after it. -/
  | named (seen : List Char) (rows : List CharRef.Row) (best : Option (List Char × List Char))
  /-- After `#`. -/
  | number
  /-- After `#x`; the `x` may be a capital. -/
  | hexStart (x : Char)
  | decimal (n : Nat)
  | hexadecimal (n : Nat)
  deriving Repr, DecidableEq

namespace Reference

/-- Code points of the C1 controls stand for what windows-1252 has in their place. -/
def windows1252 : List (Nat × Char) :=
  [(0x80, '€'), (0x82, '‚'), (0x83, 'ƒ'), (0x84, '„'), (0x85, '…'), (0x86, '†'), (0x87, '‡'), (0x88, 'ˆ'),
   (0x89, '‰'), (0x8a, 'Š'), (0x8b, '‹'), (0x8c, 'Œ'), (0x8e, 'Ž'), (0x91, '‘'), (0x92, '’'), (0x93, '“'),
   (0x94, '”'), (0x95, '•'), (0x96, '–'), (0x97, '—'), (0x98, '˜'), (0x99, '™'), (0x9a, 'š'), (0x9b, '›'),
   (0x9c, 'œ'), (0x9e, 'ž'), (0x9f, 'Ÿ')]

def ofNumber (n : Nat) : Char :=
  if n = 0 ∨ 0x10ffff < n ∨ (0xd800 ≤ n ∧ n ≤ 0xdfff) then replacement
  else (windows1252.lookup n).getD (Char.ofNat n)

inductive Outcome
  | more (r : Reference)
  /-- It ends, and stands for `text`; `taken` tells whether the character belongs to it. -/
  | done (text : List Char) (taken : Bool)

/-- What a name stands for that goes no further, with `next` after all that was read. In an attribute value a
name without a semicolon counts only if neither `=` nor a letter or digit follows. -/
def settle (inAttr : Bool) (seen : List Char) (best : Option (List Char × List Char)) (next : Option Char) :
    List Char :=
  match best with
  | none => '&' :: seen
  | some (text, after) =>
    if inAttr && (after.head?.or next).any fun c => c = '=' || c.isAlphanum then '&' :: seen
    else text ++ after

def goOn (inAttr : Bool) (seen : List Char) (rows : List CharRef.Row) (best : Option (List Char × List Char))
    (c : Char) : Outcome :=
  match rows with
  | [] => .done (settle inAttr seen best (some c)) false
  | rows =>
    match c, CharRef.complete? rows with
    | ';', some text => .done text true
    | c, some text => .more (.named (seen ++ [c]) rows (some (text, [])))
    | c, none => .more (.named (seen ++ [c]) rows (best.map fun (text, after) => (text, after ++ [c])))

def step (inAttr : Bool) (r : Reference) (c : Char) : Outcome :=
  match r with
  | start =>
    if c = '#' then .more number
    else goOn inAttr [] (CharRef.startingWith c) none c
  | named seen rows best => goOn inAttr seen (CharRef.advance c rows) best c
  | number =>
    if c = 'x' ∨ c = 'X' then .more (hexStart c)
    else if c.isDigit then .more (decimal (c.toNat - '0'.toNat))
    else .done ['&', '#'] false
  | hexStart x =>
    match Text.hexDigit? c with
    | some d => .more (hexadecimal d)
    | none => .done ['&', '#', x] false
  | decimal n =>
    if c.isDigit then .more (decimal (10 * n + (c.toNat - '0'.toNat)))
    else .done [ofNumber n] (c = ';')
  | hexadecimal n =>
    match Text.hexDigit? c with
    | some d => .more (hexadecimal (16 * n + d))
    | none => .done [ofNumber n] (c = ';')

def finish (inAttr : Bool) : Reference → List Char
  | start => ['&']
  | named seen _ best => settle inAttr seen best none
  | number => ['&', '#']
  | hexStart x => ['&', '#', x]
  | decimal n | hexadecimal n => [ofNumber n]

end Reference
end Stencil.Markup
