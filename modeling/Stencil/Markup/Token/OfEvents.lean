import Stencil.Markup.Declared
import Stencil.Markup.Event.OfSource
import Stencil.Markup.Token

/-! Tokens from events. A cursor follows the events in the source, to give each tag a position and its attributes
the order in which they are declared. Text that only declarations interrupt is one token. -/

namespace Stencil.Markup

/-- The cursor, whether a script or style is open, and the text that is being gathered. -/
structure Follower where
  cursor : Cursor
  inScript : Bool
  gathered : Option (Position × String)

namespace Follower

def start (source : List Char) : Follower := ⟨.ofSource source, false, none⟩

def escape (c : Char) : String :=
  if c = '&' then "&amp;" else if c = '<' then "&lt;" else c.toString

def addText (f : Follower) (c : Char) : Follower :=
  let new := if f.inScript then c.toString else escape c
  match f.gathered with
  | some (p, content) => { f with gathered := some (p, content ++ new) }
  | none => { f with gathered := some (f.cursor.position, new) }

def flush (f : Follower) : List Token :=
  match f.gathered with
  | some (p, content) => [⟨.text content, p⟩]
  | none => []

def sortAttrs (attrs : List (List Char × List Char)) : List (List Char × List Char) :=
  attrs.mergeSort fun a b => decide (String.ofList a.1 ≤ String.ofList b.1)

/-- Finds a start tag: its position, its declared attributes, and the cursor after it. -/
def placeStart (c : Cursor) (name : List Char) : Position × List Declared × Cursor :=
  match locate ['<'] name c.rest with
  | some (tag, after) =>
    let opened := c.upTo tag
    let (attrs, rest) := declared after
    (opened.position, attrs, opened.upTo rest)
  | none => (c.position, [], c)

/-- Finds an end tag: its position, and the cursor after it. -/
def placeEnd (c : Cursor) (name : List Char) : Position × Cursor :=
  match locate ['<', '/'] name c.rest with
  | some (tag, _) =>
    let opened := c.upTo tag
    (opened.position, opened.upTo (pastClose tag))
  | none => (c.position, c)

def step (f : Follower) : Event → Follower × List Token
  | .text c => (f.addText c, [])
  | .declaration =>
    match pastDeclaration? f.cursor.rest with
    | some rest => ({ f with cursor := f.cursor.upTo rest }, [])
    | none => (f, [])
  | .startTag _ name attrs selfClosing =>
    let (position, order, cursor) := placeStart f.cursor name
    let opensScript := !selfClosing && (name = "script".toList || name = "style".toList)
    let attrs := (inDeclaredOrder (sortAttrs attrs) order).map fun (n, v) =>
      (String.ofList n, v.map String.ofList)
    (⟨cursor, f.inScript || opensScript, none⟩,
      f.flush ++ [⟨.startTag (String.ofList name) attrs selfClosing, position⟩])
  | .endTag _ name =>
    let (position, cursor) := placeEnd f.cursor name
    (⟨cursor, false, none⟩, f.flush ++ [⟨.endTag (String.ofList name), position⟩])

def run (f : Follower) : List Event → List Token
  | [] => f.flush ++ [⟨.eof, f.cursor.position⟩]
  | e :: es =>
    let (f, ts) := f.step e
    ts ++ f.run es

end Follower

def tokens (source : String) : List Token :=
  (Follower.start source.toList).run (events source.toList)

end Stencil.Markup
