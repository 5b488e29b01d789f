import Stencil.Proofs.Directive.Notation
import Stencil.Proofs.Render.Meaning

/-! Where paths lead. From the datum under its root a path goes on by one segment after the other, until it has come to its
end or to a segment that leads nowhere. This is told for any data that segments lead through, and looking a path up among
values comes to what is told of values. -/

namespace Stencil

/-- How messages name a segment: a call has its brackets. -/
inductive Segment.IsNamed : Segment → String → Prop
  | property (name : String) : IsNamed (.property name) name
  | call (name : String) : IsNamed (.call name) (name ++ "()")

theorem Segment.label_eq_iff {s : Segment} {name : String} : s.label = name ↔ s.IsNamed name := by
  constructor
  · rintro rfl
    cases s with
    | property name => exact .property name
    | call name => exact .call name
  · rintro ⟨_ | _⟩ <;> rfl

/-- Data that paths lead through: what a segment leads to, what messages call a datum, and what iteration runs over. -/
structure Terrain (α : Type) where
  member? : α → Segment → Option α
  typeName : α → String
  Iterates : α → List α → Prop

namespace Terrain

variable {α : Type} (T : Terrain α)

def walk? (segments : List Segment) (a : α) : Option α := segments.foldlM T.member? a

/-- How following a path ends: without a datum under its root, at the first segment that leads nowhere, or with what it
leads to. -/
inductive Leads (env : String → Option α) (p : Path) : Except Error α → Prop
  | unbound (root : env p.root = none) : Leads env p (.error (.unbound p.root p.text))
  | missing {a b : α} {before after : List Segment} {s : Segment} {name : String} (root : env p.root = some a)
      (split : p.segments = before ++ s :: after) (reached : T.walk? before a = some b)
      (absent : T.member? b s = none) (named : s.IsNamed name) :
      Leads env p (.error (.noSuchProperty name (T.typeName b)))
  | found {a b : α} (root : env p.root = some a) (reached : T.walk? p.segments a = some b) : Leads env p (.ok b)

/-- How finding the elements of what a path leads to ends. -/
inductive Lists (env : String → Option α) (p : Path) : Except Error (List α) → Prop
  | failed {err : Error} (leads : T.Leads env p (.error err)) : Lists env p (.error err)
  | notIterable {a : α} (leads : T.Leads env p (.ok a)) (plain : ∀ as, ¬ T.Iterates a as) :
      Lists env p (.error (.notIterable (T.typeName a) p.text))
  | elements {a : α} {as : List α} (leads : T.Leads env p (.ok a)) (iterates : T.Iterates a as) :
      Lists env p (.ok as)

theorem walk?_cons (s : Segment) (segments : List Segment) (a : α) :
    T.walk? (s :: segments) a = (T.member? a s).bind (T.walk? segments) := List.foldlM_cons

theorem walk?_or_missing (segments : List Segment) (a : α) :
    (∃ b, T.walk? segments a = some b) ∨ ∃ before s after b, segments = before ++ s :: after ∧
      T.walk? before a = some b ∧ T.member? b s = none := by
  induction segments generalizing a with
  | nil => exact .inl ⟨a, rfl⟩
  | cons s segments ih =>
    cases h : T.member? a s with
    | none => exact .inr ⟨[], s, segments, a, rfl, rfl, h⟩
    | some b =>
      have onward : ∀ later, T.walk? (s :: later) a = T.walk? later b := by
        intro later
        rw [walk?_cons, h, Option.bind_some]
      rcases ih b with ⟨c, hc⟩ | ⟨before, s', after, c, rfl, hc, habsent⟩
      · exact .inl ⟨c, (onward segments).trans hc⟩
      · exact .inr ⟨s :: before, s', after, c, rfl, (onward before).trans hc, habsent⟩

theorem exists_leads (env : String → Option α) (p : Path) : ∃ r, T.Leads env p r := by
  cases root : env p.root with
  | none => exact ⟨_, .unbound root⟩
  | some a =>
    rcases T.walk?_or_missing p.segments a with ⟨b, reached⟩ | ⟨before, s, after, b, split, reached, absent⟩
    · exact ⟨_, .found root reached⟩
    · exact ⟨_, .missing root split reached absent (Segment.label_eq_iff.1 rfl)⟩

theorem exists_lists (env : String → Option α) (p : Path) : ∃ r, T.Lists env p r := by
  obtain ⟨r, leads⟩ := T.exists_leads env p
  cases r with
  | error err => exact ⟨_, .failed leads⟩
  | ok a =>
    by_cases h : ∃ as, T.Iterates a as
    · obtain ⟨as, iterates⟩ := h
      exact ⟨_, .elements leads iterates⟩
    · exact ⟨_, .notIterable leads (not_exists.1 h)⟩

end Terrain

/-! ### Values -/

namespace Value

/-- What a segment leads to: the length of a list, or what a host object has under the name. Nothing else has members. -/
def member? : Value → Segment → Option Value
  | list items, s => if s.name = "length" ∨ s.name = "size" then some (int (Int64.ofNat items.length)) else none
  | object o, .property name => o.property name
  | object o, .call name => o.call name
  | null, _ | bool _, _ | int _, _ | float _, _ | string _, _ => none

/-- What messages call a value. Host objects say themselves what they are. -/
def kind : Value → String
  | null => "null"
  | bool _ => "boolean"
  | int _ => "integer"
  | float _ => "float"
  | string _ => "string"
  | list _ => "list"
  | object o => o.typeName

/-- Iteration runs over the items of a list, or over what a host collection has as its elements, and over nothing else. -/
inductive Iterates : Value → List Value → Prop
  | list (items : List Value) : Iterates (list items) items
  | collection {o : Object Value} {elements : List Value} (h : o.elements = some elements) : Iterates (object o) elements

def terrain : Terrain Value := ⟨member?, kind, Iterates⟩

theorem typeName_eq_kind (v : Value) : v.typeName = v.kind := by cases v <;> rfl

theorem elements?_eq_some_iff {v : Value} {vs : List Value} : v.elements? = some vs ↔ v.Iterates vs := by
  constructor
  · intro h
    cases v with
    | list items =>
      obtain rfl := Option.some.inj h
      exact .list items
    | object o => exact .collection h
    | null | bool | int | float | string => cases h
  · rintro (_ | h)
    · rfl
    · exact h

theorem elements?_eq_none_iff {v : Value} : v.elements? = none ↔ ∀ vs, ¬ v.Iterates vs := by
  rw [Option.eq_none_iff_forall_ne_some]
  exact forall_congr' fun vs => not_congr elements?_eq_some_iff

end Value

theorem Segment.step_eq (v : Value) (s : Segment) :
    s.step v = match v.member? s with
      | some w => .ok w
      | none => .error (.noSuchProperty s.label v.kind) := by
  rw [← Value.typeName_eq_kind]
  cases v <;> cases s <;> rfl

theorem Segment.foldlM_step_of_walk? {segments : List Segment} {v w : Value}
    (h : Value.terrain.walk? segments v = some w) : segments.foldlM Segment.step v = .ok w := by
  induction segments generalizing v with
  | nil =>
    obtain rfl := Option.some.inj h
    rfl
  | cons s segments ih =>
    rw [Terrain.walk?_cons, Option.bind_eq_some_iff] at h
    obtain ⟨u, hu, hw⟩ := h
    have step : s.step v = .ok u := by
      have member : v.member? s = some u := hu
      rw [Segment.step_eq, member]
    rw [List.foldlM_cons, step]
    exact ih hw

namespace Environment

variable {env : Environment} {p : Path}

theorem lookup_of_leads {r : Except Error Value} (h : Value.terrain.Leads env p r) : env.lookup p = r := by
  unfold lookup
  cases h with
  | unbound root => rw [root]
  | found root reached =>
    rw [root]
    exact Segment.foldlM_step_of_walk? reached
  | @missing v w before after s name root split reached absent named =>
    have step : s.step w = .error (.noSuchProperty name w.kind) := by
      have member : w.member? s = none := absent
      rw [Segment.step_eq, member, Segment.label_eq_iff.2 named]
    rw [root, split]
    dsimp only
    rw [List.foldlM_append, Segment.foldlM_step_of_walk? reached]
    change ((s :: after).foldlM Segment.step w) = _
    rw [List.foldlM_cons, step]
    rfl

/-- Looking a path up ends as following it does, and in no other way. -/
theorem lookup_eq_iff {r : Except Error Value} : env.lookup p = r ↔ Value.terrain.Leads env p r := by
  constructor
  · rintro rfl
    obtain ⟨r, hr⟩ := Value.terrain.exists_leads env p
    rwa [lookup_of_leads hr]
  · exact lookup_of_leads

theorem elements_of_leads {v : Value} (h : Value.terrain.Leads env p (.ok v)) :
    env.elements p = match v.elements? with
      | some items => .ok items
      | none => .error (.notIterable v.kind p.text) := by
  rw [elements, lookup_of_leads h, ← Value.typeName_eq_kind]
  rfl

theorem elements_of_lists {r : Except Error (List Value)} (h : Value.terrain.Lists env p r) : env.elements p = r := by
  cases h with
  | failed leads =>
    rw [elements, lookup_of_leads leads]
    rfl
  | @notIterable v leads plain =>
    have noElements : v.elements? = none := Value.elements?_eq_none_iff.2 plain
    rw [elements_of_leads leads, noElements]
    rfl
  | @elements v vs leads iterates =>
    have hasElements : v.elements? = some vs := Value.elements?_eq_some_iff.2 iterates
    rw [elements_of_leads leads, hasElements]

theorem elements_eq_iff {r : Except Error (List Value)} : env.elements p = r ↔ Value.terrain.Lists env p r := by
  constructor
  · rintro rfl
    obtain ⟨r, hr⟩ := Value.terrain.exists_lists env p
    rwa [elements_of_lists hr]
  · exact elements_of_lists

end Environment

end Stencil
