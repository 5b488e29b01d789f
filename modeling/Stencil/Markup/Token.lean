import Stencil.Markup.Cursor
import Stencil.Text.Quoted

/-! The tokens of a source: text, start tags and end tags with their positions. -/

namespace Stencil.Markup

inductive TokenKind
  /-- Text as markup: `&` and `<` are escaped again outside of scripts and styles. -/
  | text (content : String)
  /-- Attributes are in declaration order, and `none` is the value of one that has none. -/
  | startTag (name : String) (attrs : List (String × Option String)) (selfClosing : Bool)
  | endTag (name : String)
  | eof
  deriving Repr, DecidableEq

structure Token where
  kind : TokenKind
  position : Position
  deriving Repr, DecidableEq

def attrStructureText (attr : String × Option String) : String :=
  let value := match attr.2 with
    | some v => "Some(" ++ Text.quote v ++ ")"
    | none => "None"
  "(" ++ Text.quote attr.1 ++ ", " ++ value ++ ")"

def TokenKind.structureText : TokenKind → String
  | text content => "Text(" ++ Text.quote content ++ ")"
  | startTag name attrs selfClosing =>
    "StartTag \x7b name: " ++ Text.quote name ++ ", attributes: [" ++
      ", ".intercalate (attrs.map attrStructureText) ++ "], self_closing: " ++
      (if selfClosing then "true" else "false") ++ " \x7d"
  | endTag name => "EndTag(" ++ Text.quote name ++ ")"
  | eof => "Eof"

/-- The token with its parts and its position. -/
def Token.structureText (t : Token) : String :=
  t.kind.structureText ++ " at " ++ toString t.position.line ++ ":" ++ toString t.position.column

end Stencil.Markup
