/-! What reading markup yields, before tags are placed in the source: characters of text, tags, and declarations,
by which comments, doctypes and processing instructions are meant alike. -/

namespace Stencil.Markup

/-- A tag has a `place`: how many characters of the source come before its `<`. The attributes of a start tag
are distinct and in the order in which they were read. -/
inductive Event
  | text (c : Char)
  | startTag (place : Nat) (name : List Char) (attrs : List (List Char × List Char)) (selfClosing : Bool)
  | endTag (place : Nat) (name : List Char)
  | declaration
  deriving Repr, DecidableEq

/-- The blanks of HTML. Carriage returns have become newlines before this is asked. -/
def isSpace (c : Char) : Bool := c = ' ' || c = '\t' || c = '\n' || c = '\x0c'

def replacement : Char := '\ufffd'

def shown (c : Char) : Char := if c = '\x00' then replacement else c

def nameChar (c : Char) : Char := shown c.toLower

end Stencil.Markup
