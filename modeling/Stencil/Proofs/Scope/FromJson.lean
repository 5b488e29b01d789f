import Stencil.Proofs.Directive.Leading
import Stencil.Proofs.Named
import Stencil.Proofs.Render.Scoping

/-! Scopes from JSON data. Following a path in the data and following it among the values that they are turned into end
alike: segment by segment the one leads on where the other does, and to what the value there is turned from. -/

namespace Stencil

/-! ### Terrains that are alike -/

section Options

variable {α β : Type} {R : α → β → Prop} {x : Option α} {y : Option β}

theorem some_of_rel {a : α} (h : Option.Rel R x y) (hx : x = some a) : ∃ b, y = some b ∧ R a b := by
  subst hx
  cases h with
  | some hab => exact ⟨_, rfl, hab⟩

theorem none_of_rel (h : Option.Rel R x y) (hx : x = none) : y = none := by
  subst hx
  cases h with
  | none => rfl

end Options

/-- The same failure, or results that are related. -/
inductive EndsAlike {α β : Type} (R : α → β → Prop) : Except Error α → Except Error β → Prop
  | error (err : Error) : EndsAlike R (.error err) (.error err)
  | ok {a : α} {b : β} (h : R a b) : EndsAlike R (.ok a) (.ok b)

/-- A result ends as it is told: with the failure that is told and no other, and with what is related to what is told. -/
structure EndsAs {α β : Type} (R : α → β → Prop) (told : Except Error α → Prop) (x : Except Error β) : Prop where
  error : ∀ err, x = .error err ↔ told (.error err)
  ok : ∀ a, told (.ok a) → ∃ b, x = .ok b ∧ R a b
  told : ∀ b, x = .ok b → ∃ a, told (.ok a)

theorem EndsAs.mono {α β : Type} {R S : α → β → Prop} {told : Except Error α → Prop} {x : Except Error β}
    (h : EndsAs R told x) (hRS : ∀ a b, R a b → S a b) : EndsAs S told x := by
  refine ⟨h.error, fun a ha => ?_, h.told⟩
  obtain ⟨b, hb, hab⟩ := h.ok a ha
  exact ⟨b, hb, hRS a b hab⟩

theorem endsAs_of_endsAlike {α β : Type} {R : α → β → Prop} {told : Except Error α → Prop} {x : Except Error β}
    (some : ∃ r, told r) (h : ∀ {r}, told r → EndsAlike R r x) : EndsAs R told x := by
  obtain ⟨r, hr⟩ := some
  refine ⟨fun err => ⟨?_, fun herr => ?_⟩, fun a ha => ?_, ?_⟩
  · rintro rfl
    cases h hr with
    | error => exact hr
  · cases h herr with
    | error => rfl
  · cases h ha with
    | ok hab => exact ⟨_, rfl, hab⟩
  · rintro b rfl
    cases h hr with
    | ok => exact ⟨_, hr⟩

namespace Terrain

variable {α β : Type}

/-- Related data have the same type, each segment leads from them to related data, and iteration runs over related data or
over none on both sides. -/
structure Mirrors (T : Terrain α) (U : Terrain β) (R : α → β → Prop) : Prop where
  member : ∀ {a b}, R a b → ∀ s, Option.Rel R (T.member? a s) (U.member? b s)
  typeName : ∀ {a b}, R a b → T.typeName a = U.typeName b
  iterates : ∀ {a b as}, R a b → T.Iterates a as → ∃ bs, U.Iterates b bs ∧ List.Forall₂ R as bs
  plain : ∀ {a b}, R a b → (∀ as, ¬ T.Iterates a as) → ∀ bs, ¬ U.Iterates b bs

namespace Mirrors

variable {T : Terrain α} {U : Terrain β} {R : α → β → Prop} (h : T.Mirrors U R)

include h

theorem walk (segments : List Segment) {a : α} {b : β} (hab : R a b) :
    Option.Rel R (T.walk? segments a) (U.walk? segments b) := by
  induction segments generalizing a b with
  | nil => exact .some hab
  | cons s segments ih =>
    have first := h.member hab s
    rw [walk?_cons, walk?_cons]
    generalize T.member? a s = x at first ⊢
    generalize U.member? b s = y at first ⊢
    cases first with
    | none => exact .none
    | some hab => exact ih hab

variable {env : String → Option α} {env' : String → Option β} (roots : ∀ name, Option.Rel R (env name) (env' name))

include roots

theorem leads {p : Path} {r : Except Error α} (hr : T.Leads env p r) : ∃ r', U.Leads env' p r' ∧ EndsAlike R r r' := by
  cases hr with
  | unbound root => exact ⟨_, .unbound (none_of_rel (roots p.root) root), .error _⟩
  | @missing _ _ before after s name root split reached absent named =>
    obtain ⟨c, hroot, hac⟩ := some_of_rel (roots p.root) root
    obtain ⟨d, hreached, hbd⟩ := some_of_rel (h.walk before hac) reached
    have habsent : U.member? d s = none := none_of_rel (h.member hbd s) absent
    refine ⟨_, .missing hroot split hreached habsent named, ?_⟩
    rw [h.typeName hbd]
    exact .error _
  | found root reached =>
    obtain ⟨c, hroot, hac⟩ := some_of_rel (roots p.root) root
    obtain ⟨d, hreached, hbd⟩ := some_of_rel (h.walk p.segments hac) reached
    exact ⟨_, .found hroot hreached, .ok hbd⟩

theorem lists {p : Path} {r : Except Error (List α)} (hr : T.Lists env p r) :
    ∃ r', U.Lists env' p r' ∧ EndsAlike (List.Forall₂ R) r r' := by
  cases hr with
  | failed leads =>
    obtain ⟨_, hr', alike⟩ := h.leads roots leads
    cases alike with
    | error err => exact ⟨_, .failed hr', .error _⟩
  | notIterable leads plain =>
    obtain ⟨_, hr', alike⟩ := h.leads roots leads
    cases alike with
    | ok hab =>
      refine ⟨_, .notIterable hr' (h.plain hab plain), ?_⟩
      rw [h.typeName hab]
      exact .error _
  | elements leads iterates =>
    obtain ⟨_, hr', alike⟩ := h.leads roots leads
    cases alike with
    | ok hab =>
      obtain ⟨bs, hbs, each⟩ := h.iterates hab iterates
      exact ⟨_, .elements hr' hbs, .ok each⟩

end Mirrors

end Terrain

/-! ### JSON data -/

namespace Json

/-- What a segment leads to: the field of an object, or the length of an array. Objects have no accessors, and nothing else
has members. -/
def member? : Json → Segment → Option Json
  | object fields, .property key => Named.last? fields key
  | object _, .call _ => none
  | array items, s => if s.name = "length" ∨ s.name = "size" then some (int (Int64.ofNat items.length)) else none
  | null, _ | bool _, _ | int _, _ | float _, _ | string _, _ => none

def typeName : Json → String
  | null => "null"
  | bool _ => "boolean"
  | int _ => "integer"
  | float _ => "float"
  | string _ => "string"
  | array _ => "list"
  | object _ => "object"

/-- Iteration runs over the items of an array, and over nothing else. -/
inductive Iterates : Json → List Json → Prop
  | array (items : List Json) : Iterates (array items) items

def terrain : Terrain Json := ⟨member?, typeName, Iterates⟩

end Json

/-- The value shows the data: of the same kind, a list item by item, and an object as a record of the type `object` that
has the same keys, under each of them what shows the field, and no accessors. -/
inductive Value.Shows : Json → Value → Prop
  | null : Shows .null .null
  | bool (b : Bool) : Shows (.bool b) (.bool b)
  | int (n : Int64) : Shows (.int n) (.int n)
  | float (x : Float) : Shows (.float x) (.float x)
  | string (s : String) : Shows (.string s) (.string s)
  | array {items : List Json} {vs : List Value} (each : List.Forall₂ Shows items vs) : Shows (.array items) (.list vs)
  | object {fields : List (String × Json)} (identity : List Nat) {record : Named Value}
      (keys : ∀ key, key ∈ record.names ↔ key ∈ fields.map Prod.fst)
      (each : ∀ key j v, Named.last? fields key = some j → record.get? key = some v → Shows j v) :
      Shows (.object fields) ((Record.mk "object" record []).toValue identity)

namespace Value

mutual

theorem shows_ofJson (origin : List Nat) : ∀ j : Json, Shows j (ofJson origin j)
  | .null => .null
  | .bool b => .bool b
  | .int n => .int n
  | .float x => .float x
  | .string s => .string s
  | .array items => .array (shows_ofItems origin 0 items)
  | .object fields => by
    have each := shows_ofFields origin 0 fields
    refine .object origin (fun key => ?_) fun key j v hj hv => ?_
    · rw [Named.mem_names_ofList, Named.names_of_related each]
    · have related := Named.rel_last? each key
      rw [Named.get?_ofList] at hv
      rw [hj, hv] at related
      cases related with
      | some shows => exact shows

theorem shows_ofItems (origin : List Nat) (i : Nat) : ∀ items : List Json, List.Forall₂ Shows items (ofItems origin i items)
  | [] => .nil
  | j :: items => .cons (shows_ofJson (origin ++ [i]) j) (shows_ofItems origin (i + 1) items)

theorem shows_ofFields (origin : List Nat) (i : Nat) : ∀ fields : List (String × Json),
    List.Forall₂ (fun a b => a.1 = b.1 ∧ Shows a.2 b.2) fields (ofFields origin i fields)
  | [] => .nil
  | (_, j) :: fields => .cons ⟨rfl, shows_ofJson (origin ++ [i]) j⟩ (shows_ofFields origin (i + 1) fields)

end

end Value

namespace Json

def IsTurnedInto (j : Json) (v : Value) : Prop := ∃ place, v = Value.ofJson place j

theorem IsTurnedInto.shows {j : Json} {v : Value} (h : j.IsTurnedInto v) : v.Shows j := by
  obtain ⟨place, rfl⟩ := h
  exact Value.shows_ofJson place j

theorem turned_items (origin : List Nat) (i : Nat) (items : List Json) :
    List.Forall₂ IsTurnedInto items (Value.ofItems origin i items) := by
  induction items generalizing i with
  | nil => exact .nil
  | cons j items ih => exact .cons ⟨origin ++ [i], rfl⟩ (ih (i + 1))

theorem turned_fields (origin : List Nat) (i : Nat) (fields : List (String × Json)) :
    List.Forall₂ (fun a b => a.1 = b.1 ∧ IsTurnedInto a.2 b.2) fields (Value.ofFields origin i fields) := by
  induction fields generalizing i with
  | nil => exact .nil
  | cons field fields ih => exact .cons ⟨rfl, origin ++ [i], rfl⟩ (ih (i + 1))

theorem mirrors : terrain.Mirrors Value.terrain IsTurnedInto where
  member := by
    rintro j _ ⟨place, rfl⟩ s
    cases j with
    | null | bool | int | float | string => exact .none
    | array items =>
      have length : items.length = (Value.ofItems place 0 items).length := (turned_items place 0 items).length_eq
      change Option.Rel _ (if _ then some (int (Int64.ofNat items.length)) else none)
        (if _ then some (Value.int (Int64.ofNat (Value.ofItems place 0 items).length)) else none)
      rw [← length]
      split
      · exact .some ⟨[], rfl⟩
      · exact .none
    | object fields =>
      cases s with
      | call name => exact .none
      | property key =>
        have last := Named.rel_last? (turned_fields place 0 fields) key
        rw [← Named.get?_ofList (Value.ofFields place 0 fields)] at last
        exact last
  typeName := by
    rintro j _ ⟨place, rfl⟩
    cases j <;> rfl
  iterates := by
    rintro _ _ items ⟨place, rfl⟩ ⟨⟩
    exact ⟨_, .list _, turned_items place 0 items⟩
  plain := by
    rintro j _ ⟨place, rfl⟩ plain vs iterates
    cases j with
    | array items => exact plain items (.array items)
    | null | bool | int | float | string => cases iterates
    | object fields =>
      -- a record is a host object without elements
      cases iterates with
      | collection h => cases h

end Json

namespace Scope

theorem get?_ofList (bindings : List (String × Value)) (name : String) :
    (ofList bindings).get? name = Named.last? bindings name := by
  have all := Named.get_foldl_put get?_put bindings empty name
  rwa [get?_empty, Option.or_none] at all

/-- A scope is made of every JSON object, and a path that is resolved in it ends as it does when it is followed in the
object: it fails where the data go no further, and else has the value that the data found are turned into. Elements come
out in the order of the array, and only of an array. A call leads nowhere from an object. -/
theorem paths_ofJson (origin : List Nat) (fields : List (String × Json)) :
    ∃ scope, ofJson origin (.object fields) = .ok scope ∧ ∀ p : Path,
      let data := Named.last? fields
      EndsAs (fun j v => j.IsTurnedInto v ∧ v.Shows j) (Json.terrain.Leads data p) (p.resolve scope).result ∧
      EndsAs (List.Forall₂ fun j v => j.IsTurnedInto v ∧ v.Shows j) (Json.terrain.Lists data p) (p.elements scope).result ∧
      ∀ before name after inner, p.segments = before ++ .call name :: after →
        Json.terrain.Leads data ⟨p.root, before⟩ (.ok (.object inner)) →
        (p.resolve scope).result = .error (.noSuchProperty (name ++ "()") "object") := by
  refine ⟨ofList (Value.ofFields origin 0 fields), rfl, fun p => ?_⟩
  generalize hscope : ofList (Value.ofFields origin 0 fields) = scope
  intro data
  have shows : ∀ (j : Json) v, j.IsTurnedInto v → j.IsTurnedInto v ∧ v.Shows j := fun j v h => ⟨h, h.shows⟩
  have roots : ∀ name, Option.Rel Json.IsTurnedInto (data name) (scope.get? name) := by
    intro name
    rw [← hscope, get?_ofList]
    exact Named.rel_last? (Json.turned_fields origin 0 fields) name
  have resolves : EndsAs Json.IsTurnedInto (Json.terrain.Leads data p) (p.resolve scope).result := by
    refine endsAs_of_endsAlike (Json.terrain.exists_leads data p) fun hr => ?_
    obtain ⟨r', hr', alike⟩ := Json.mirrors.leads roots hr
    rwa [Path.result_resolve, Environment.lookup_of_leads hr']
  have iterates : EndsAs (List.Forall₂ Json.IsTurnedInto) (Json.terrain.Lists data p) (p.elements scope).result := by
    refine endsAs_of_endsAlike (Json.terrain.exists_lists data p) fun hr => ?_
    obtain ⟨r', hr', alike⟩ := Json.mirrors.lists roots hr
    rwa [Path.result_elements, Environment.elements_of_lists hr']
  refine ⟨resolves.mono shows, iterates.mono fun _ _ each => each.imp shows, ?_⟩
  intro before name after inner split reached
  cases reached with
  | found root walked =>
    have atRoot : data p.root = some _ := root
    exact (resolves.error _).2 (.missing atRoot split walked rfl (.call name))

/-- Of an array the length is found, and on an object no accessor, whatever its keys are. -/
theorem paths_ofJson_house :
    let house := [("rooms", Json.array [.null, .bool true]), ("garden", .object [("size", .int 7)])]
    ∃ scope, ofJson [] (.object house) = .ok scope ∧
      (∃ v, (Path.resolve scope ⟨"rooms", [.property "size"]⟩).result = .ok v ∧ v.Shows (.int 2)) ∧
      (Path.resolve scope ⟨"garden", [.call "size"]⟩).result = .error (.noSuchProperty "size()" "object") := by
  intro house
  obtain ⟨scope, hscope, ends⟩ := paths_ofJson [] house
  refine ⟨scope, hscope, ?_, ?_⟩
  · obtain ⟨v, hv, -, shows⟩ := (ends ⟨"rooms", [.property "size"]⟩).1.ok (.int 2) (.found rfl rfl)
    exact ⟨v, hv, shows⟩
  · exact (ends ⟨"garden", [.call "size"]⟩).2.2 [] "size" [] _ rfl (.found rfl rfl)

end Scope

end Stencil
