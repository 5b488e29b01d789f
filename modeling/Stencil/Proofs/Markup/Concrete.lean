import Mathlib.Data.List.DropRight
import Stencil.Proofs.Markup.Print

/-! Markup as it is written by hand: text with references, declarations, and tags whose names are in capital or small
letters and whose attributes are quoted or not. A source is a list of such pieces, each of which carries what makes it
legal. The pieces tell what is written, which tokens that stands for, and where each token begins. -/

namespace Stencil.Markup.Concrete

/-! ### Names and blanks -/

/-- A letter, a digit, or one of the signs that names hold. -/
def inName (c : Char) : Bool := c.isAlphanum || c = '-' || c = '_' || c = ':'

structure Name where
  first : Char
  others : List Char
  first_isAlpha : first.isAlpha
  others_inName : others.all inName

def Name.written (n : Name) : List Char := n.first :: n.others

def Name.lowered (n : Name) : List Char := n.written.map Char.toLower

structure Blanks where
  written : List Char
  areSpaces : written.all isSpace

/-! ### Attributes -/

def holds (q : Quoting) (c : Char) : Bool :=
  c ≠ '&' && c ≠ '\r' && c ≠ '\x00' &&
    match q with
    | .double => c ≠ '"'
    | .single => c ≠ '\''
    | .unquoted => !Text.isBlank c && c ∉ ['>', '"', '\'', '<', '=', '\x60']

def quote : Quoting → List Char
  | .double => ['"']
  | .single => ['\'']
  | .unquoted => []

structure Value where
  quoting : Quoting
  chars : List Char
  legal : chars.all (holds quoting)
  notEmpty : quoting = .unquoted → chars ≠ []

def Value.written (v : Value) : List Char := quote v.quoting ++ v.chars ++ quote v.quoting

structure Assigned where
  before : Blanks
  after : Blanks
  value : Value

def Assigned.written (a : Assigned) : List Char := a.before.written ++ '=' :: a.after.written ++ a.value.written

/-- An attribute after at least one blank. -/
structure Attr where
  gap : Blanks
  gap_notEmpty : gap.written ≠ []
  name : Name
  assigned : Option Assigned

def Attr.written (a : Attr) : List Char :=
  a.gap.written ++ a.name.written ++ (a.assigned.map Assigned.written).getD []

def Attr.isUnquoted (a : Attr) : Bool := a.assigned.any fun x => x.value.quoting = .unquoted

/-- What an attribute stands for: its name in small letters, and its value if it has one. -/
def Attr.meaning (a : Attr) : List Char × Option (List Char) :=
  (a.name.lowered, a.assigned.map fun x => x.value.chars)

/-- Of the attributes of one name the first. -/
def firsts {α β : Type} [DecidableEq α] : List (α × β) → List (α × β)
  | [] => []
  | a :: as => a :: (firsts as).filter (·.1 ≠ a.1)

/-! ### Pieces -/

/-- A start tag of an element that holds markup. Directly after an unquoted value a slash would belong to that. -/
structure StartTag where
  name : Name
  holdsMarkup : name.lowered ∉ ["script", "style", "title", "textarea"].map String.toList
  attrs : List Attr
  blanks : Blanks
  selfClosing : Bool
  slashApart : selfClosing = true → blanks.written = [] → attrs.getLast?.any Attr.isUnquoted = false

def StartTag.written (t : StartTag) : List Char :=
  '<' :: t.name.written ++ t.attrs.flatMap Attr.written ++ t.blanks.written ++ closer t.selfClosing

def StartTag.kind (t : StartTag) : TokenKind :=
  .startTag (String.ofList t.name.lowered)
    ((firsts (t.attrs.map Attr.meaning)).map fun (n, v) => (String.ofList n, v.map String.ofList)) t.selfClosing

structure EndTag where
  name : Name
  blanks : Blanks

def EndTag.written (t : EndTag) : List Char := '<' :: '/' :: t.name.written ++ t.blanks.written ++ ['>']

inductive TextPart
  | plain (c : Char) (legal : c ∉ ['<', '&', '\r', '\x00'])
  | amp
  | lt
  | gt
  | quot

namespace TextPart

def written : TextPart → List Char
  | plain c _ => [c]
  | amp => ['&', 'a', 'm', 'p', ';']
  | lt => ['&', 'l', 't', ';']
  | gt => ['&', 'g', 't', ';']
  | quot => ['&', 'q', 'u', 'o', 't', ';']

/-- How a part stands in a token: only `&` and `<` are still references. -/
def inToken : TextPart → List Char
  | plain c _ => [c]
  | amp => ['&', 'a', 'm', 'p', ';']
  | lt => ['&', 'l', 't', ';']
  | gt => ['>']
  | quot => ['"']

end TextPart

/-- What may stand between the signs of a comment. -/
structure IsCommentBody (body : List Char) : Prop where
  noDashes : ¬ ['-', '-'] <:+: body
  notClosed : ¬ ['>'] <+: body
  notDashClosed : ¬ ['-', '>'] <+: body
  noLastDash : ¬ ['-'] <:+ body

inductive Declaration
  | comment (body : List Char) (legal : IsCommentBody body)
  | doctype (body : List Char) (legal : '>' ∉ body)
  | instruction (body : List Char) (legal : '>' ∉ body)

def Declaration.written : Declaration → List Char
  | comment body _ => ['<', '!', '-', '-'] ++ body ++ ['-', '-', '>']
  | doctype body _ => ['<', '!', 'D', 'O', 'C', 'T', 'Y', 'P', 'E'] ++ body ++ ['>']
  | instruction body _ => ['<', '?'] ++ body ++ ['>']

inductive Piece
  | text (parts : List TextPart)
  | declaration (d : Declaration)
  | startTag (t : StartTag)
  | endTag (t : EndTag)

namespace Piece

def written : Piece → List Char
  | text parts => parts.flatMap TextPart.written
  | declaration d => d.written
  | startTag t => t.written
  | endTag t => t.written

/-- The kind of the token that a piece stands for, if it does for one. -/
def kind? : Piece → Option TokenKind
  | text [] => none
  | text parts => some (.text (String.ofList (parts.flatMap TextPart.inToken)))
  | declaration _ => none
  | startTag t => some t.kind
  | endTag t => some (.endTag (String.ofList t.name.lowered))

def isText : Piece → Bool
  | text _ => true
  | _ => false

end Piece

/-! ### Sources -/

def written (xs : List Piece) : List Char := xs.flatMap Piece.written

/-- Where the text ends that is written from `p` on. -/
def past (p : Position) (cs : List Char) : Position := cs.foldl Position.advance p

/-- The tokens of the pieces that begin at `p`, each where its piece begins. -/
def tokensFrom (p : Position) : List Piece → List Token
  | [] => []
  | x :: xs => (x.kind?.map fun kind => ⟨kind, p⟩).toList ++ tokensFrom (past p x.written) xs

/-- Joins texts that stand side by side, at the position of the first. -/
def joinTexts : List Token → List Token
  | [] => []
  | ⟨.text s, p⟩ :: ts =>
    match joinTexts ts with
    | ⟨.text t, _⟩ :: us => ⟨.text (s ++ t), p⟩ :: us
    | us => ⟨.text s, p⟩ :: us
  | t :: ts => t :: joinTexts ts

/-- Where the last tag or declaration ends. -/
def lastEnd (p : Position) (xs : List Piece) : Position := past p (written (xs.rdropWhile Piece.isText))

def meaning (xs : List Piece) : List Token :=
  joinTexts (tokensFrom .start xs) ++ [⟨.eof, lastEnd .start xs⟩]

end Stencil.Markup.Concrete
