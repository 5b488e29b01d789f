import Stencil.Named

/-! TOML data, and tables as they are defined piece by piece. -/

namespace Stencil

inductive Toml
  | string (s : String)
  | integer (n : Int)
  | float (x : Float)
  | boolean (b : Bool)
  | datetime (text : String)
  | array (items : List Toml)
  | table (entries : List (String × Toml))

namespace Toml

/-- Where a table comes from: its own header, a longer header, or a dotted key. -/
inductive Origin
  | header
  | implied
  | dotted
  deriving Repr, DecidableEq

/-- An entry of a table that may still grow. Values do not. -/
inductive Item
  | value (v : Toml)
  | table (origin : Origin) (entries : List (String × Item))
  /-- An array of tables, of which the last one may grow. -/
  | tables (elements : List (List (String × Item)))

abbrev Entries := List (String × Item)

mutual

def Item.data : Item → Toml
  | .value v => v
  | .table _ entries => .table (entriesData entries)
  | .tables elements => .array (elementsData elements)

def entriesData : List (String × Item) → List (String × Toml)
  | [] => []
  | (k, i) :: rest => (k, i.data) :: entriesData rest

def elementsData : List (List (String × Item)) → List Toml
  | [] => []
  | e :: rest => .table (entriesData e) :: elementsData rest

end

/-- Changes the last of some tables. -/
def changeLast (f : Entries → Option Entries) : List Entries → Option (List Entries)
  | [] => none
  | [e] => (f e).map ([·])
  | e :: rest => (changeLast f rest).map (e :: ·)

/-- Gives a value to a dotted key. The tables on the way are made as needed, and one that has a header of its
own is not extended in this way. -/
def assign (v : Toml) : List String → Entries → Option Entries
  | [], _ => none
  | [k], entries =>
    match Named.get? entries k with
    | some _ => none
    | none => some (Named.insert k (.value v) entries)
  | k :: rest, entries =>
    match Named.get? entries k with
    | none => (assign v rest []).map fun t => Named.insert k (.table .dotted t) entries
    | some (.table .dotted t) => (assign v rest t).map fun t => Named.insert k (.table .dotted t) entries
    | some (.table .implied t) =>
      if rest.length = 1 then none
      else (assign v rest t).map fun t => Named.insert k (.table .implied t) entries
    | some (.tables ts) =>
      if rest.length = 1 then none
      else (changeLast (assign v rest) ts).map fun ts => Named.insert k (.tables ts) entries
    | some (.table .header _) => none
    | some (.value _) => none

/-- Changes the entry at the end of a header's path. Missing tables on the way are implied. -/
def change (f : Option Item → Option Item) : List String → Entries → Option Entries
  | [], _ => none
  | [k], entries => (f (Named.get? entries k)).map fun i => Named.insert k i entries
  | k :: rest, entries =>
    match Named.get? entries k with
    | none => (change f rest []).map fun t => Named.insert k (.table .implied t) entries
    | some (.table origin t) => (change f rest t).map fun t => Named.insert k (.table origin t) entries
    | some (.tables ts) => (changeLast (change f rest) ts).map fun ts => Named.insert k (.tables ts) entries
    | some (.value _) => none

inductive Statement
  | assign (path : List String) (v : Toml)
  /-- `[path]` -/
  | header (path : List String)
  /-- `[[path]]` -/
  | element (path : List String)

/-- The tables so far, and the path of the last header. -/
structure Tables where
  root : Entries
  current : List String

namespace Tables

def empty : Tables := ⟨[], []⟩

/-- A header may define a table that is new or only implied so far. -/
def defineTable : Option Item → Option Item
  | none => some (.table .header [])
  | some (.table .implied t) => some (.table .header t)
  | some _ => none

def addElement : Option Item → Option Item
  | none => some (.tables [[]])
  | some (.tables ts) => some (.tables (ts ++ [[]]))
  | some _ => none

def assignIn (path : List String) (v : Toml) : Option Item → Option Item
  | some (.table origin t) => (Toml.assign v path t).map (.table origin)
  | some (.tables ts) => (changeLast (Toml.assign v path) ts).map .tables
  | _ => none

def step (t : Tables) : Statement → Option Tables
  | .assign path v =>
    if t.current.isEmpty then (Toml.assign v path t.root).map fun root => { t with root }
    else (change (assignIn path v) t.current t.root).map fun root => { t with root }
  | .header path => (change defineTable path t.root).map fun root => ⟨root, path⟩
  | .element path => (change addElement path t.root).map fun root => ⟨root, path⟩

end Tables
end Toml
end Stencil
