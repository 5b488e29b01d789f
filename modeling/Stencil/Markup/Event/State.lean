import Stencil.Markup.CharRef.Reference

/-! Where a reader of markup stands between two characters. -/

namespace Stencil.Markup

/-- How far a script has gone into a comment, and into a script tag inside that comment. A script ends at its
end tag, except where such a tag has been opened in a comment. -/
inductive ScriptPart
  | code
  /-- After `<!` and after `<!-`, which a comment may begin with. -/
  | bang
  | bangDash
  /-- In a comment, after as many dashes, of which at most two count. -/
  | comment (dashes : Nat)
  /-- In a comment, after `<` and letters that may turn out to be `script`. -/
  | opening (letters : List Char)
  /-- In a script inside a comment, after as many dashes. -/
  | nested (dashes : Nat)
  | nestedLess
  /-- In a script inside a comment, after `</` and letters that may turn out to be `script`. -/
  | nestedClosing (letters : List Char)
  deriving Repr, DecidableEq

/-- What the text at hand belongs to. Outside of `markup` only the end tag of the element `name` is a tag. -/
inductive Content
  | markup
  /-- Text with character references. -/
  | plain (name : List Char)
  | script (name : List Char) (part : ScriptPart)
  deriving Repr, DecidableEq

structure OpenTag where
  place : Nat
  isEnd : Bool
  name : List Char
  attrs : List (List Char × List Char)
  deriving Repr, DecidableEq

inductive Quoting
  | double
  | single
  | unquoted
  deriving Repr, DecidableEq

/-- Parts of a declaration, after its `<!` or `<?`. -/
inductive DeclarationPart
  /-- After `<!` and after `<!-`. -/
  | opened
  | openedDash
  /-- Up to the next `>`. -/
  | simple
  /-- A comment, after `<!--` and after `<!---`. -/
  | start
  | startDash
  | body
  /-- After `-`, `--` and `--!` in a comment. -/
  | dash
  | dashes
  | bang
  deriving Repr, DecidableEq

inductive State
  | text (content : Content) (reference : Option Reference)
  /-- After `<` in markup. -/
  | less (place : Nat)
  /-- After `</` in markup. -/
  | lessSlash (place : Nat)
  | tagName (tag : OpenTag)
  | beforeAttr (tag : OpenTag)
  | attrName (tag : OpenTag) (name : List Char)
  | afterAttrName (tag : OpenTag) (name : List Char)
  | beforeValue (tag : OpenTag) (name : List Char)
  | value (tag : OpenTag) (name : List Char) (quoting : Quoting) (value : List Char)
    (reference : Option Reference)
  | afterValue (tag : OpenTag)
  /-- After a `/` that may end the tag. -/
  | slash (tag : OpenTag)
  | declaration (part : DeclarationPart)
  /-- After `<` in other content than markup. -/
  | endLess (content : Content) (place : Nat)
  /-- After `</` and letters, as they are written, in other content than markup. -/
  | endName (content : Content) (place : Nat) (letters : List Char)
  deriving Repr, DecidableEq

def Content.name : Content → List Char
  | markup => []
  | plain name => name
  | script name _ => name

def Content.ofStartTag (name : List Char) (selfClosing : Bool) : Content :=
  if selfClosing then markup
  else if name = "script".toList ∨ name = "style".toList then script name .code
  else if name = "textarea".toList ∨ name = "title".toList then plain name
  else markup

def OpenTag.addAttr (tag : OpenTag) (name value : List Char) : OpenTag :=
  if name ∈ tag.attrs.map Prod.fst then tag else { tag with attrs := tag.attrs ++ [(name, value)] }

end Stencil.Markup
