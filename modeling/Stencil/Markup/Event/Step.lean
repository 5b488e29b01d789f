import Stencil.Markup.Event.State

/-! Reading markup character by character. Each step goes to the next state and yields what is complete. A
character that ends one construct without belonging to it is handed to the step of what follows. -/

namespace Stencil.Markup

abbrev Step := State × List Event

def texts (cs : List Char) : List Event := cs.map .text

def OpenTag.close (tag : OpenTag) (selfClosing : Bool) : Step :=
  if tag.isEnd then (.text .markup none, [.endTag tag.place tag.name])
  else
    (.text (.ofStartTag tag.name selfClosing) none, [.startTag tag.place tag.name tag.attrs selfClosing])

namespace ScriptPart

/-- How a comment goes on: `level` tells for each count of dashes where that is. -/
def inComment (level : Nat → ScriptPart) (dashes : Nat) (c : Char) : ScriptPart :=
  if c = '-' then level (min 2 (dashes + 1))
  else if c = '>' ∧ dashes = 2 then code
  else level 0

def endsName (c : Char) : Bool := isSpace c || c = '/' || c = '>'

/-- Scripts inside the comments of a script are opened and closed by `script` tags alone. -/
def isScript (letters : List Char) : Bool := letters.map Char.toLower = "script".toList

/-- The part of a script after one more of its characters. A `<` is looked at here only in scripts inside
comments, where it does not begin an end tag. -/
def step (p : ScriptPart) (c : Char) : ScriptPart :=
  match p with
  | code => code
  | bang => if c = '-' then bangDash else code
  | bangDash => if c = '-' then comment 2 else code
  | comment dashes => inComment comment dashes c
  | opening letters =>
    if endsName c then if isScript letters then nested 0 else comment 0
    else if c.isAlpha then opening (letters ++ [c])
    else inComment comment 0 c
  | nested dashes => if c = '<' then nestedLess else inComment nested dashes c
  | nestedLess =>
    if c = '/' then nestedClosing []
    else if c = '<' then nestedLess else inComment nested 0 c
  | nestedClosing letters =>
    if endsName c then if isScript letters then comment 0 else nested 0
    else if c.isAlpha then nestedClosing (letters ++ [c])
    else if c = '<' then nestedLess else inComment nested 0 c

def canEnd : ScriptPart → Bool
  | nested _ | nestedLess | nestedClosing _ => false
  | _ => true

/-- Where the script stands when a `<` turned out to be no end tag. -/
def afterLess : ScriptPart → ScriptPart
  | comment _ | opening _ => comment 0
  | _ => code

end ScriptPart

def textStep (place : Nat) (content : Content) (c : Char) : Step :=
  match content with
  | .markup =>
    if c = '<' then (.less place, [])
    else if c = '&' then (.text .markup (some .start), [])
    else (.text .markup none, [.text c])
  | .plain name =>
    if c = '<' then (.endLess (.plain name) place, [])
    else if c = '&' then (.text (.plain name) (some .start), [])
    else (.text (.plain name) none, [.text (shown c)])
  | .script name part =>
    if c = '<' ∧ part.canEnd then (.endLess (.script name part.afterLess) place, [])
    else (.text (.script name (part.step c)) none, [.text (shown c)])

/-- After a `<` in a script: a comment or a script inside a comment may begin. -/
def scriptLess (place : Nat) (name : List Char) (part : ScriptPart) (c : Char) : Step :=
  match part with
  | .code =>
    if c = '!' then (.text (.script name .bang) none, texts ['<', '!'])
    else let (s, es) := textStep place (.script name .code) c; (s, .text '<' :: es)
  | part =>
    let part := if c.isAlpha then .opening [] else part
    let (s, es) := textStep place (.script name part) c
    (s, .text '<' :: es)

def slashStep (tag : OpenTag) (c : Char) : Option Step :=
  if c = '/' then some (.slash tag, []) else if c = '>' then some (tag.close false) else none

def attrStep (tag : OpenTag) (c : Char) : Step :=
  if isSpace c then (.beforeAttr tag, [])
  else (slashStep tag c).getD (.attrName tag [nameChar c], [])

def attrNameStep (tag : OpenTag) (name : List Char) (c : Char) : Step :=
  if isSpace c then (.afterAttrName tag name, [])
  else if c = '=' then (.beforeValue tag name, [])
  else (slashStep (tag.addAttr name []) c).getD (.attrName tag (name ++ [nameChar c]), [])

def afterAttrNameStep (tag : OpenTag) (name : List Char) (c : Char) : Step :=
  if isSpace c then (.afterAttrName tag name, [])
  else if c = '=' then (.beforeValue tag name, [])
  else
    let tag := tag.addAttr name []
    (slashStep tag c).getD (.attrName tag [nameChar c], [])

def valueStep (tag : OpenTag) (name : List Char) (quoting : Quoting) (value : List Char) (c : Char) : Step :=
  let ended := tag.addAttr name value
  if c = '&' then (.value tag name quoting value (some .start), [])
  else
    let more : Step := (.value tag name quoting (value ++ [shown c]) none, [])
    match quoting with
    | .double => if c = '"' then (.afterValue ended, []) else more
    | .single => if c = '\'' then (.afterValue ended, []) else more
    | .unquoted =>
      if isSpace c then (.beforeAttr ended, [])
      else if c = '>' then ended.close false
      else more

def beforeValueStep (tag : OpenTag) (name : List Char) (c : Char) : Step :=
  if isSpace c then (.beforeValue tag name, [])
  else if c = '"' then (.value tag name .double [] none, [])
  else if c = '\'' then (.value tag name .single [] none, [])
  else valueStep tag name .unquoted [] c

def DeclarationPart.step (p : DeclarationPart) (c : Char) : Option DeclarationPart :=
  match p with
  | opened => if c = '-' then some openedDash else if c = '>' then none else some simple
  | openedDash => if c = '-' then some start else if c = '>' then none else some simple
  | simple => if c = '>' then none else some simple
  | start => if c = '-' then some startDash else if c = '>' then none else some body
  | startDash => if c = '-' then some dashes else if c = '>' then none else some body
  | body => if c = '-' then some dash else some body
  | dash => if c = '-' then some dashes else some body
  | dashes => if c = '>' then none else if c = '!' then some bang else if c = '-' then some dashes else some body
  | bang => if c = '-' then some dash else if c = '>' then none else some body

def lessStep (place start : Nat) (c : Char) : Step :=
  if c = '!' then (.declaration .opened, [])
  else if c = '?' then (.declaration .simple, [])
  else if c = '/' then (.lessSlash start, [])
  else if c.isAlpha then (.tagName ⟨start, false, [c.toLower], []⟩, [])
  else let (s, es) := textStep place .markup c; (s, .text '<' :: es)

def endLessStep (place : Nat) (content : Content) (start : Nat) (c : Char) : Step :=
  if c = '/' then (.endName content start [], [])
  else
    match content with
    | .script name part => scriptLess place name part c
    | content => let (s, es) := textStep place content c; (s, .text '<' :: es)

/-- After `</` and letters in other content than markup: the end tag, if they are the name of the element. -/
def endNameStep (place : Nat) (content : Content) (start : Nat) (letters : List Char) (c : Char) : Step :=
  if c.isAlpha then (.endName content start (letters ++ [c]), [])
  else
    let tag : OpenTag := ⟨start, true, content.name, []⟩
    let found := letters.map Char.toLower = content.name
    if found ∧ isSpace c then (.beforeAttr tag, [])
    else if found ∧ c = '/' then (.slash tag, [])
    else if found ∧ c = '>' then tag.close false
    else
      let (s, es) := textStep place content c
      (s, texts ('<' :: '/' :: letters) ++ es)

def State.step (place : Nat) (s : State) (c : Char) : Step :=
  match s with
  | text content none => textStep place content c
  | text content (some r) =>
    match r.step false c with
    | .more r => (text content (some r), [])
    | .done cs true => (text content none, texts cs)
    | .done cs false => let (s, es) := textStep place content c; (s, texts cs ++ es)
  | less start => lessStep place start c
  | lessSlash start =>
    if c.isAlpha then (tagName ⟨start, true, [c.toLower], []⟩, [])
    else if c = '>' then (text .markup none, [])
    else (declaration .simple, [])
  | tagName tag =>
    if isSpace c then (beforeAttr tag, [])
    else (slashStep tag c).getD (tagName { tag with name := tag.name ++ [nameChar c] }, [])
  | beforeAttr tag => attrStep tag c
  | attrName tag name => attrNameStep tag name c
  | afterAttrName tag name => afterAttrNameStep tag name c
  | beforeValue tag name => beforeValueStep tag name c
  | value tag name quoting v none => valueStep tag name quoting v c
  | value tag name quoting v (some r) =>
    match r.step true c with
    | .more r => (value tag name quoting v (some r), [])
    | .done cs true => (value tag name quoting (v ++ cs) none, [])
    | .done cs false => valueStep tag name quoting (v ++ cs) c
  | afterValue tag => attrStep tag c
  | slash tag => if c = '>' then tag.close true else attrStep tag c
  | declaration part =>
    match part.step c with
    | some part => (declaration part, [])
    | none => (text .markup none, [.declaration])
  | endLess content start => endLessStep place content start c
  | endName content start letters => endNameStep place content start letters c

/-- What is left to yield where the source ends. A tag that is not whole is dropped. -/
def State.finish : State → List Event
  | text _ (some r) => texts (r.finish false)
  | less _ | endLess .. => texts ['<']
  | lessSlash _ => texts ['<', '/']
  | endName _ _ letters => texts ('<' :: '/' :: letters)
  | declaration _ => [.declaration]
  | _ => []

end Stencil.Markup
