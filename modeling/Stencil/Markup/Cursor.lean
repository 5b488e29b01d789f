import Stencil.Text.Blank

/-! A cursor that follows along in the source while its events are read, and finds there where each tag is. -/

namespace Stencil.Markup

/-- A line and a column of the source, both counted from one. Only newlines end lines. -/
structure Position where
  line : Nat
  column : Nat
  deriving Repr, DecidableEq

def Position.start : Position := ⟨1, 1⟩

def Position.advance (p : Position) (c : Char) : Position :=
  if c = '\n' then ⟨p.line + 1, 1⟩ else ⟨p.line, p.column + 1⟩

/-- What is left of the source, and where that begins. -/
structure Cursor where
  rest : List Char
  position : Position
  deriving Repr, DecidableEq

namespace Cursor

def ofSource (source : List Char) : Cursor := ⟨source, .start⟩

def forward (c : Cursor) (n : Nat) : Cursor :=
  ⟨c.rest.drop n, (c.rest.take n).foldl Position.advance c.position⟩

/-- Moves on to where `rest`, the end of what is left, begins. -/
def upTo (c : Cursor) (rest : List Char) : Cursor := c.forward (c.rest.length - rest.length)

end Cursor

def afterName? : List Char → List Char → Option (List Char)
  | [], s => some s
  | n :: ns, c :: cs => if n.toLower = c.toLower then afterName? ns cs else none
  | _ :: _, [] => none

def endsTagName : List Char → Bool
  | [] => true
  | c :: _ => Text.isBlank c || c = '/' || c = '>'

/-- What follows `opening` and a whole tag name `name` at the head of a text. -/
def afterTag? (opening name s : List Char) : Option (List Char) :=
  (afterName? (opening ++ name) s).filter endsTagName

/-- The first place in a text where a tag of this name opens: the text from there, and the text after the
name. -/
def locate (opening name : List Char) : List Char → Option (List Char × List Char)
  | [] => none
  | c :: cs =>
    match afterTag? opening name (c :: cs) with
    | some after => some (c :: cs, after)
    | none => locate opening name cs

theorem locate_suffix {opening name s tag after : List Char}
    (h : locate opening name s = some (tag, after)) : tag <:+ s := by
  induction s with
  | nil => simp [locate] at h
  | cons c cs ih =>
    unfold locate at h
    split at h
    · simp only [Option.some.injEq, Prod.mk.injEq] at h
      exact h.1 ▸ List.suffix_refl _
    · exact (ih h).trans (List.suffix_cons c cs)

def pastClose (s : List Char) : List Char := (s.dropWhile (· ≠ '>')).drop 1

def pastCommentEnd : List Char → List Char
  | '-' :: '-' :: '>' :: rest => rest
  | _ :: rest => pastCommentEnd rest
  | [] => []

def pastDeclaration? : List Char → Option (List Char)
  | '<' :: '!' :: '-' :: '-' :: rest => some (pastCommentEnd rest)
  | '<' :: '!' :: rest => some (pastClose rest)
  | '<' :: '?' :: rest => some (pastClose rest)
  | _ :: rest => pastDeclaration? rest
  | [] => none

end Stencil.Markup
