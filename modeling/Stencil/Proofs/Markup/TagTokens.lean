import Stencil.Proofs.Markup.Concrete.Placing
import Stencil.Proofs.Markup.DeclaredOrder

/-! The tokens of tags, from the cursor alone. Every tag that is read gives one token, which has its name and the names
of its attributes. A value is kept or lost, and which is told by the text that begins at the position of the token. -/

namespace Stencil.Markup

open Concrete (past past_append)

def Event.isTag : Event → Bool
  | startTag .. | endTag .. => true
  | _ => false

def Token.isTag (t : Token) : Bool :=
  match t.kind with
  | .startTag .. | .endTag _ => true
  | _ => false

namespace Cursor

/-- The cursor after an event. -/
def after (c : Cursor) : Event → Cursor
  | .text _ => c
  | .declaration =>
    match pastDeclaration? c.rest with
    | some rest => c.upTo rest
    | none => c
  | .startTag _ name _ _ => (Follower.placeStart c name).2.2
  | .endTag _ name => (Follower.placeEnd c name).2

def token? (c : Cursor) : Event → Option Token
  | .startTag _ name attrs selfClosing =>
    let placed := Follower.placeStart c name
    some ⟨.startTag (String.ofList name) (ordered attrs placed.2.1) selfClosing, placed.1⟩
  | .endTag _ name => some ⟨.endTag (String.ofList name), (Follower.placeEnd c name).1⟩
  | _ => none

def tokens (c : Cursor) : List Event → List Token
  | [] => []
  | e :: es => (c.token? e).toList ++ (c.after e).tokens es

theorem tokens_texts (c : Cursor) (cs : List Char) (es : List Event) : c.tokens (texts cs ++ es) = c.tokens es := by
  induction cs with
  | nil => rfl
  | cons d cs ih => exact ih

theorem tokens_append (c : Cursor) (es es' : List Event) :
    c.tokens (es ++ es') = c.tokens es ++ (es.foldl after c).tokens es' := by
  induction es generalizing c with
  | nil => rfl
  | cons e es ih => simp [tokens, ih]

/-- The cursor stands in a source, at its position. -/
def Within (source : List Char) (c : Cursor) : Prop := ∃ before, source = before ++ c.rest ∧ c.position = past .start before

theorem within_upTo {source : List Char} {c : Cursor} (h : c.Within source) {rest : List Char} (hrest : rest <:+ c.rest) :
    (c.upTo rest).Within source := by
  obtain ⟨before, hsource, hposition⟩ := h
  obtain ⟨gap, hgap⟩ := hrest
  have whole : c = ⟨gap ++ rest, c.position⟩ := by rw [hgap]
  refine ⟨before ++ gap, ?_, ?_⟩
  · rw [rest_upTo ⟨gap, hgap⟩, hsource, ← hgap, List.append_assoc]
  · rw [whole, Concrete.upTo_append, hposition, past_append]

end Cursor

namespace Follower

theorem filter_flush (f : Follower) : f.flush.filter Token.isTag = [] := by
  unfold flush
  split <;> rfl

theorem cursor_step (f : Follower) (e : Event) : (f.step e).1.cursor = f.cursor.after e := by
  cases e with
  | text c =>
    unfold step addText
    cases f.gathered <;> rfl
  | declaration =>
    unfold step Cursor.after
    cases pastDeclaration? f.cursor.rest <;> rfl
  | startTag | endTag => rfl

theorem filter_step (f : Follower) (e : Event) : (f.step e).2.filter Token.isTag = (f.cursor.token? e).toList := by
  cases e with
  | text c => rfl
  | declaration =>
    obtain ⟨cursor, h⟩ := step_declaration f
    rw [h]
    rfl
  | startTag | endTag =>
    rw [step, List.filter_append, filter_flush]
    rfl

theorem filter_run (f : Follower) (es : List Event) : (f.run es).filter Token.isTag = f.cursor.tokens es := by
  induction es generalizing f with
  | nil =>
    rw [run, List.filter_append, filter_flush]
    rfl
  | cons e es ih => rw [run, List.filter_append, filter_step, ih, cursor_step, Cursor.tokens]

end Follower

/-! ### Attributes in declared order -/

/-- A value is lost exactly if the first declaration of its name has none. -/
theorem mem_inDeclaredOrder_of_mem {values : List (List Char × List Char)} (hnodup : (values.map Prod.fst).Nodup)
    {a : List Char × List Char} (ha : a ∈ values) (order : List Declared) :
    (a.1, if order.lookup a.1 = some false then none else some a.2) ∈ inDeclaredOrder values order := by
  induction order generalizing values with
  | nil => exact List.mem_map.2 ⟨a, ha, rfl⟩
  | cons m order ih =>
    obtain ⟨m, hasValue⟩ := m
    unfold inDeclaredOrder
    by_cases hm : a.1 = m
    · subst hm
      have here : values.lookup a.1 = some a.2 := lookup_of_nodup hnodup ha
      simp only [here, List.lookup_cons, beq_self_eq_true, Option.some.injEq]
      cases hasValue <;> simp
    · have later : (a.1 == m) = false := by simpa using hm
      simp only [List.lookup_cons, later]
      cases hl : values.lookup m with
      | none => exact ih hnodup ha
      | some v =>
        have kept : a ∈ values.filter (·.1 != m) := List.mem_filter.2 ⟨ha, by simpa using hm⟩
        exact List.mem_cons_of_mem _ (ih (hnodup.sublist (List.filter_sublist.map Prod.fst)) kept)

/-! ### All sources -/

/-- What a start tag declares where a text begins with it. -/
def declaredAt (name rest : List Char) : List Declared :=
  match afterTag? ['<'] name rest with
  | some after => (declared after).1
  | none => []

/-- The token of a tag has its name and the names of its attributes, each once. A value is kept as it is, or lost if the
text from the position of the token on begins with a tag of this name that declares the attribute first without a
value. -/
inductive Represents (source : List Char) : Event → Token → Prop
  | startTag {place : Nat} {name before rest : List Char} {attrs : List (List Char × List Char)}
    {as : List (String × Option String)} (selfClosing : Bool) (position : source = before ++ rest)
    (names : (as.map Prod.fst).Perm (attrs.map fun a => String.ofList a.1)) (nodup : (as.map Prod.fst).Nodup)
    (values : ∀ a ∈ attrs, (String.ofList a.1,
      if (declaredAt name rest).lookup a.1 = some false then none else some (String.ofList a.2)) ∈ as) :
    Represents source (.startTag place name attrs selfClosing)
      ⟨.startTag (String.ofList name) as selfClosing, past .start before⟩
  | endTag {place : Nat} {name before rest : List Char} (position : source = before ++ rest) :
    Represents source (.endTag place name) ⟨.endTag (String.ofList name), past .start before⟩

theorem locate_some {o name s tag after : List Char} (h : locate o name s = some (tag, after)) :
    afterTag? o name tag = some after := by
  induction s with
  | nil => cases h
  | cons c cs ih =>
    unfold locate at h
    split at h
    · next hafter =>
      obtain ⟨rfl, rfl⟩ := Prod.mk.inj (Option.some.inj h)
      exact hafter
    · exact ih h

theorem locate_none {o name : List Char} {c : Char} {cs : List Char} (h : locate o name (c :: cs) = none) :
    afterTag? o name (c :: cs) = none := by
  unfold locate at h
  split at h
  · cases h
  · assumption

namespace Cursor

variable {source : List Char} {c : Cursor}

/-- A start tag is placed where the declarations of its attributes are found, and the cursor stays in the source. -/
theorem Within.placeStart (h : c.Within source) (name : List Char) :
    (∃ before rest, source = before ++ rest ∧ (Follower.placeStart c name).1 = past .start before ∧
      (Follower.placeStart c name).2.1 = declaredAt name rest) ∧ (Follower.placeStart c name).2.2.Within source := by
  unfold Follower.placeStart
  cases hl : locate ['<'] name c.rest with
  | none =>
    obtain ⟨before, hsource, hposition⟩ := h
    have nothing : declaredAt name c.rest = [] := by
      unfold declaredAt
      cases hr : c.rest with
      | nil => cases name <;> rfl
      | cons d ds =>
        rw [hr] at hl
        rw [locate_none hl]
    exact ⟨⟨before, c.rest, hsource, hposition, nothing.symm⟩, before, hsource, hposition⟩
  | some found =>
    obtain ⟨tag, after⟩ := found
    have opened := within_upTo h (locate_suffix hl)
    have tagRest : (c.upTo tag).rest = tag := rest_upTo (locate_suffix hl)
    have behind : (declared after).2 <:+ (c.upTo tag).rest := by
      rw [tagRest]
      exact (AttrScan.run_suffix .between after).trans (locate_after_suffix hl)
    refine ⟨?_, within_upTo opened behind⟩
    obtain ⟨before, hsource, hposition⟩ := opened
    refine ⟨before, tag, tagRest ▸ hsource, hposition, ?_⟩
    rw [declaredAt, locate_some hl]

theorem Within.placeEnd (h : c.Within source) (name : List Char) :
    (∃ before rest, source = before ++ rest ∧ (Follower.placeEnd c name).1 = past .start before) ∧
      (Follower.placeEnd c name).2.Within source := by
  unfold Follower.placeEnd
  cases hl : locate ['<', '/'] name c.rest with
  | none =>
    obtain ⟨before, hsource, hposition⟩ := h
    exact ⟨⟨before, c.rest, hsource, hposition⟩, before, hsource, hposition⟩
  | some found =>
    obtain ⟨tag, after⟩ := found
    have opened := within_upTo h (locate_suffix hl)
    have tagRest : (c.upTo tag).rest = tag := rest_upTo (locate_suffix hl)
    have behind : pastClose tag <:+ (c.upTo tag).rest := by
      rw [tagRest]
      exact pastClose_suffix tag
    refine ⟨?_, within_upTo opened behind⟩
    obtain ⟨before, hsource, hposition⟩ := opened
    exact ⟨before, _, hsource, hposition⟩

theorem Within.after (h : c.Within source) (e : Event) : (c.after e).Within source := by
  cases e with
  | text d => exact h
  | declaration =>
    unfold Cursor.after
    cases hd : pastDeclaration? c.rest with
    | none => exact h
    | some rest => exact within_upTo h (pastDeclaration?_suffix hd)
  | startTag place name => exact (h.placeStart name).2
  | endTag place name => exact (h.placeEnd name).2

end Cursor

theorem represents_startTag {source : List Char} {c : Cursor} (h : c.Within source) (place : Nat) (name : List Char)
    {attrs : List (List Char × List Char)} (hnodup : (attrs.map Prod.fst).Nodup) (selfClosing : Bool) :
    ∃ t, c.token? (.startTag place name attrs selfClosing) = some t ∧
      Represents source (.startTag place name attrs selfClosing) t := by
  obtain ⟨⟨before, rest, hsource, hposition, horder⟩, -⟩ := h.placeStart name
  have sorted : (Follower.sortAttrs attrs).Perm attrs := List.mergeSort_perm attrs _
  have sortedNodup : ((Follower.sortAttrs attrs).map Prod.fst).Nodup := ((sorted.map Prod.fst).nodup_iff).2 hnodup
  have token : c.token? (.startTag place name attrs selfClosing) =
      some ⟨.startTag (String.ofList name) (ordered attrs (declaredAt name rest)) selfClosing, past .start before⟩ := by
    rw [Cursor.token?, hposition, horder]
  refine ⟨_, token, ?_⟩
  refine .startTag selfClosing hsource ?_ (nodup_ordered hnodup _) fun a ha => ?_
  · have names := ((perm_names_inDeclaredOrder sortedNodup (declaredAt name rest)).trans (sorted.map Prod.fst)).map String.ofList
    simpa [ordered, Function.comp_def] using names
  · have here := mem_inDeclaredOrder_of_mem sortedNodup (sorted.mem_iff.2 ha) (declaredAt name rest)
    refine List.mem_map.2 ⟨_, here, Prod.ext rfl ?_⟩
    exact (apply_ite (Option.map String.ofList) _ none (some a.2))

theorem forall₂_represents {source : List Char} {content : Content} {es : List Event} (hes : LawfulEvents content es)
    {c : Cursor} (h : c.Within source) :
    List.Forall₂ (Represents source) (es.filter Event.isTag) (c.tokens es) := by
  induction es generalizing content c with
  | nil => exact .nil
  | cons e es ih =>
    have later := ih hes.2 (h.after e)
    cases e with
    | text | declaration => exact later
    | startTag place name attrs selfClosing =>
      have hnodup : (attrs.map Prod.fst).Nodup := by
        cases content with
        | markup => exact hes.1.2.2
        | plain | script => exact hes.1.elim
      obtain ⟨t, ht, represents⟩ := represents_startTag h place name hnodup selfClosing
      rw [Cursor.tokens, ht]
      exact .cons represents later
    | endTag place name =>
      obtain ⟨⟨before, rest, hsource, hposition⟩, -⟩ := h.placeEnd name
      have represents :
          Represents source (.endTag place name) ⟨.endTag (String.ofList name), (Follower.placeEnd c name).1⟩ :=
        hposition ▸ .endTag hsource
      exact .cons represents later

theorem filter_tokens (source : String) :
    (tokens source).filter Token.isTag = (Cursor.ofSource source.toList).tokens (events source.toList) :=
  Follower.filter_run _ _

theorem within_ofSource (source : List Char) : (Cursor.ofSource source).Within source := ⟨[], rfl, rfl⟩

end Stencil.Markup
