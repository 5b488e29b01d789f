import Mathlib.Data.List.DropRight
import Stencil.Proofs.Markup.Offsets

/-! The cursor counted in octets while tokens are made of events. It always stands where a part of the source ends, at the
line and the column there, and moves on only. -/

namespace Stencil.Markup

open Concrete (past past_append)

/-! ### Positions -/

instance : LE Position := ⟨fun p q => p.line < q.line ∨ p.line = q.line ∧ p.column ≤ q.column⟩

theorem Position.le_def {p q : Position} : p ≤ q ↔ p.line < q.line ∨ p.line = q.line ∧ p.column ≤ q.column := Iff.rfl

theorem Position.le_refl (p : Position) : p ≤ p := .inr ⟨rfl, Nat.le_refl _⟩

theorem Position.le_trans {p q r : Position} (h : p ≤ q) (h' : q ≤ r) : p ≤ r := by
  rw [le_def] at *
  omega

theorem Position.le_advance (p : Position) (c : Char) : p ≤ p.advance c := by
  rw [le_def]
  unfold Position.advance
  split
  · exact .inl (Nat.lt_succ_self _)
  · exact .inr ⟨rfl, Nat.le_succ _⟩

theorem le_past (p : Position) (cs : List Char) : p ≤ past p cs := by
  induction cs generalizing p with
  | nil => exact p.le_refl
  | cons c cs ih => exact Position.le_trans (p.le_advance c) (ih _)

theorem past_concat (p : Position) (cs : List Char) (c : Char) : past p (cs ++ [c]) = (past p cs).advance c :=
  past_append p cs [c]

theorem line_past (before : List Char) : (past .start before).line = 1 + before.count '\n' := by
  induction before using List.reverseRecOn with
  | nil => rfl
  | append_singleton cs c ih =>
    rw [past_concat, List.count_append, ← Nat.add_assoc, ← ih, Position.advance]
    split
    · next h => rw [h]; rfl
    · next h => rw [List.count_singleton, beq_false_of_ne h]; rfl

/-- The characters after the last newline, if there is one. -/
def lastLine (before : List Char) : List Char := before.rtakeWhile (· ≠ '\n')

theorem column_past (before : List Char) : (past .start before).column = 1 + (lastLine before).length := by
  induction before using List.reverseRecOn with
  | nil => rfl
  | append_singleton cs c ih =>
    rw [past_concat, lastLine, Position.advance]
    split
    · next h => rw [List.rtakeWhile_concat_neg _ _ _ (by simpa using h)]; rfl
    · next h => rw [List.rtakeWhile_concat_pos _ _ _ (by simpa using h), ih, lastLine, List.length_append]; rfl

namespace Offsets

open Octets (size size_append)

/-- A place in a source: the number of octets before it, and its line and column. -/
structure Mark where
  offset : Nat
  position : Position

/-- A token, and for a tag the offset at which it was located, if it was. -/
structure Found where
  token : Token
  offset : Option Nat

/-- The cursor, the marks at which it has been, whether a script or style is open, and the tokens so far. The last mark and
the last token come first. -/
structure Lexer where
  mark : Mark
  earlier : List Mark
  inScript : Bool
  found : List Found

namespace Lexer

def start : Lexer := ⟨⟨0, .start⟩, [], false, []⟩

def moved (l : Lexer) (m : Mark) : Lexer := { l with mark := m, earlier := l.mark :: l.earlier }

def push (l : Lexer) (x : Found) : Lexer := { l with found := x :: l.found }

/-- Moves on to an offset, unless that has been passed. -/
def advanceTo (source : List Char) (target : Nat) (l : Lexer) : Option Lexer :=
  if target ≤ l.mark.offset then some (l.moved l.mark)
  else do
    let rest ← from? source l.mark.offset
    let (skipped, _) ← Octets.cut? rest (target - l.mark.offset)
    return l.moved ⟨target, skipped.foldl Position.advance l.mark.position⟩

/-- Adds text to the last token, if that is a text, or makes one. -/
def addText (l : Lexer) (text : String) : Lexer :=
  match l.found with
  | ⟨⟨.text s, p⟩, o⟩ :: found => { l with found := ⟨⟨.text (s ++ text), p⟩, o⟩ :: found }
  | _ => l.push ⟨⟨.text text, l.mark.position⟩, none⟩

def addStartTag (source name : List Char) (attrs : List (List Char × List Char)) (selfClosing : Bool) (l : Lexer) :
    Option Lexer := do
  let token := fun order position => Token.mk (.startTag (String.ofList name) (ordered attrs order) selfClosing) position
  let opensScript := !selfClosing && (name = "script".toList || name = "style".toList)
  match ← locate source ['<'] name l.mark.offset with
  | some start =>
    let opened ← l.advanceTo source start
    let (order, stop) := declaredFrom source (start + 1 + size name)
    let closed ← opened.advanceTo source stop
    return { closed with inScript := l.inScript || opensScript }.push ⟨token order opened.mark.position, some start⟩
  | none => return { l with inScript := l.inScript || opensScript }.push ⟨token [] l.mark.position, none⟩

def addEndTag (source name : List Char) (l : Lexer) : Option Lexer := do
  let token := Token.mk (.endTag (String.ofList name))
  match ← locate source ['<', '/'] name l.mark.offset with
  | some start =>
    let opened ← l.advanceTo source start
    let closed ← opened.advanceTo source (← closeEnd source start)
    return { closed with inScript := false }.push ⟨token opened.mark.position, some start⟩
  | none => return { l with inScript := false }.push ⟨token l.mark.position, none⟩

def skipDeclaration (source : List Char) (l : Lexer) : Option Lexer := do
  match ← declarationEnd source l.mark.offset with
  | some stop => l.advanceTo source stop
  | none => return l

def step (source : List Char) (l : Lexer) : Event → Option Lexer
  | .text c => some (l.addText (if l.inScript then c.toString else Follower.escape c))
  | .declaration => l.skipDeclaration source
  | .startTag _ name attrs selfClosing => l.addStartTag source name attrs selfClosing
  | .endTag _ name => l.addEndTag source name

def run (source : List Char) (es : List Event) : Option Lexer := do
  let l ← es.foldlM (step source) start
  return l.push ⟨⟨.eof, l.mark.position⟩, none⟩

def tokens (l : Lexer) : List Token := (l.found.map Found.token).reverse

def marks (l : Lexer) : List Mark := (l.mark :: l.earlier).reverse

end Lexer

/-! ### Marks -/

/-- The mark is where a part of the source ends. -/
def IsMark (source : List Char) (m : Mark) : Prop :=
  ∃ before, before <+: source ∧ m = ⟨size before, past .start before⟩

theorem eq_nil_of_size {s : List Char} (h : size s = 0) : s = [] := by
  have length := Octets.length_le_size s
  exact List.eq_nil_of_length_eq_zero (by omega)

theorem IsMark.position_le {source : List Char} {m n : Mark} (hm : IsMark source m) (hn : IsMark source n)
    (h : m.offset ≤ n.offset) : m.position ≤ n.position := by
  obtain ⟨before, hbefore, rfl⟩ := hm
  obtain ⟨later, hlater, rfl⟩ := hn
  rcases List.prefix_or_prefix_of_prefix hbefore hlater with ⟨gap, rfl⟩ | ⟨gap, rfl⟩
  · rw [past_append]
    exact le_past _ gap
  · have sizes : size (later ++ gap) ≤ size later := h
    rw [size_append] at sizes
    obtain rfl : gap = [] := eq_nil_of_size (by omega)
    rw [List.append_nil]
    exact Position.le_refl _

def markOf (source : List Char) (c : Cursor) : Mark := ⟨offsetOf source c.rest, c.position⟩

variable {source : List Char} {l : Lexer} {c : Cursor}

theorem suffix_of_within (h : c.Within source) : c.rest <:+ source := by
  obtain ⟨before, hsource, -⟩ := h
  exact ⟨before, hsource.symm⟩

theorem isMark_markOf (h : c.Within source) : IsMark source (markOf source c) := by
  obtain ⟨before, hsource, hposition⟩ := h
  refine ⟨before, ⟨c.rest, hsource.symm⟩, ?_⟩
  rw [markOf, hposition]
  congr 1
  conv_lhs => rw [hsource]
  exact offsetOf_append before c.rest

theorem offset_markOf_le (h : c.Within source) {rest : List Char} (hrest : rest <:+ c.rest) :
    (markOf source c).offset ≤ (markOf source (c.upTo rest)).offset := by
  rw [markOf, markOf, Cursor.rest_upTo hrest, offsetOf_trans (suffix_of_within h) hrest]
  exact Nat.le_add_right _ _

theorem advanceTo_at (h : c.Within source) (hl : l.mark = markOf source c) {rest : List Char} (hrest : rest <:+ c.rest) :
    l.advanceTo source (offsetOf source rest) = some (l.moved (markOf source (c.upTo rest))) := by
  have place := offsetOf_trans (suffix_of_within h) hrest
  have offset : l.mark.offset = offsetOf source c.rest := congrArg Mark.offset hl
  obtain ⟨gap, hgap⟩ := hrest
  have whole : c = ⟨gap ++ rest, c.position⟩ := by rw [hgap]
  have skipped : offsetOf c.rest rest = size gap := by rw [← hgap, offsetOf_append]
  have moved : c.upTo rest = ⟨rest, past c.position gap⟩ := by
    conv_lhs => rw [whole]
    exact Concrete.upTo_append gap rest c.position
  unfold Lexer.advanceTo
  split
  · next passed =>
    obtain rfl : gap = [] := eq_nil_of_size (by omega)
    rw [moved, hl, markOf, ← hgap]
    rfl
  · have target : offsetOf source rest - l.mark.offset = size gap := by omega
    have cut : Octets.cut? c.rest (size gap) = some (gap, rest) := by rw [← hgap, Octets.cut?_append]
    rw [target, offset, from?_offsetOf (suffix_of_within h), Option.bind_eq_bind, Option.bind_some, cut, moved, hl]
    rfl

theorem advance_past (h : c.Within source) (hl : l.mark = markOf source c) {tag stop : List Char} (htag : tag <:+ c.rest)
    (hstop : stop <:+ tag) :
    let opened := l.moved (markOf source (c.upTo tag))
    l.advanceTo source (offsetOf source tag) = some opened ∧ opened.advanceTo source (offsetOf source stop) =
      some (opened.moved (markOf source ((c.upTo tag).upTo stop))) := by
  have behind : stop <:+ (c.upTo tag).rest := by rwa [Cursor.rest_upTo htag]
  exact ⟨advanceTo_at h hl htag, advanceTo_at (Cursor.within_upTo h htag) rfl behind⟩

theorem skipDeclaration_at (h : c.Within source) (hl : l.mark = markOf source c) :
    l.skipDeclaration source = some (match pastDeclaration? c.rest with
      | some rest => l.moved (markOf source (c.upTo rest))
      | none => l) := by
  have offset : l.mark.offset = offsetOf source c.rest := congrArg Mark.offset hl
  rw [Lexer.skipDeclaration, offset, declarationEnd_at (suffix_of_within h)]
  cases hd : pastDeclaration? c.rest with
  | none => rfl
  | some rest => exact advanceTo_at h hl (pastDeclaration?_suffix hd)

/-- The offset after the name of a tag that is located. -/
theorem offsetOf_after {opening name tag after s : List Char} (signs : AreSigns opening) (hs : s <:+ source)
    (hl : Markup.locate opening name s = some (tag, after)) :
    offsetOf source after = offsetOf source tag + size opening + size name := by
  obtain ⟨written, rfl, hname, -⟩ := parts_of_locate signs hl
  have tagIn := (locate_suffix hl).trans hs
  rw [offsetOf_trans tagIn (List.suffix_append _ _), offsetOf_append, size_append, size_of_toLower hname, Nat.add_assoc]

theorem addStartTag_at (h : c.Within source) (hl : l.mark = markOf source c) (name : List Char)
    (attrs : List (List Char × List Char)) (selfClosing : Bool) :
    let token := fun order position => Token.mk (.startTag (String.ofList name) (ordered attrs order) selfClosing) position
    let opensScript := !selfClosing && (name = "script".toList || name = "style".toList)
    l.addStartTag source name attrs selfClosing = some (match Markup.locate ['<'] name c.rest with
      | some (tag, after) =>
        let opened := c.upTo tag
        let closed := (l.moved (markOf source opened)).moved (markOf source (opened.upTo (declared after).2))
        { closed with inScript := l.inScript || opensScript }.push
          ⟨token (declared after).1 opened.position, some (offsetOf source tag)⟩
      | none => { l with inScript := l.inScript || opensScript }.push ⟨token [] c.position, none⟩) := by
  intro token opensScript
  have inSource := suffix_of_within h
  have offset : l.mark.offset = offsetOf source c.rest := congrArg Mark.offset hl
  have position : l.mark.position = c.position := congrArg Mark.position hl
  rw [Lexer.addStartTag, offset, position, locate_at areSigns_start inSource]
  cases hlocate : Markup.locate ['<'] name c.rest with
  | none => rfl
  | some found =>
    obtain ⟨tag, after⟩ := found
    have tagIn := locate_suffix hlocate
    have afterIn := locate_after_suffix hlocate
    have place : offsetOf source tag + 1 + size name = offsetOf source after :=
      (offsetOf_after areSigns_start inSource hlocate).symm
    have stopIn : (declared after).2 <:+ tag := (AttrScan.run_suffix .between after).trans afterIn
    obtain ⟨first, second⟩ := advance_past h hl tagIn stopIn
    simp only [Option.map_some, Option.bind_eq_bind, Option.bind_some, first, place,
      declaredFrom_at (afterIn.trans (tagIn.trans inSource)), second]
    rfl

theorem addEndTag_at (h : c.Within source) (hl : l.mark = markOf source c) (name : List Char) :
    let token := Token.mk (.endTag (String.ofList name))
    l.addEndTag source name = some (match Markup.locate ['<', '/'] name c.rest with
      | some (tag, _) =>
        let opened := c.upTo tag
        let closed := (l.moved (markOf source opened)).moved (markOf source (opened.upTo (pastClose tag)))
        { closed with inScript := false }.push ⟨token opened.position, some (offsetOf source tag)⟩
      | none => { l with inScript := false }.push ⟨token c.position, none⟩) := by
  intro token
  have inSource := suffix_of_within h
  have offset : l.mark.offset = offsetOf source c.rest := congrArg Mark.offset hl
  have position : l.mark.position = c.position := congrArg Mark.position hl
  rw [Lexer.addEndTag, offset, position, locate_at areSigns_end inSource]
  cases hlocate : Markup.locate ['<', '/'] name c.rest with
  | none => rfl
  | some found =>
    obtain ⟨tag, after⟩ := found
    have tagIn := locate_suffix hlocate
    obtain ⟨first, second⟩ := advance_past h hl tagIn (pastClose_suffix tag)
    simp only [Option.map_some, Option.bind_eq_bind, Option.bind_some, first, closeEnd_at (tagIn.trans inSource), second]
    rfl

end Offsets
end Stencil.Markup
