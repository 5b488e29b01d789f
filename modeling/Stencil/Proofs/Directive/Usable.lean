import Stencil.Proofs.Markup.DeclaredOrder
import Stencil.Proofs.Markup.ReadBack
import Stencil.Proofs.Markup.Visiting
import Stencil.Proofs.Markup.WellFormed
import Stencil.Proofs.Render.Validation

/-! Which names of directive attributes can be of use: those that some attribute of some template has. A name that is
accepted in a configuration need not be one. -/

namespace Stencil.Markup

/-- Some element of some template has an attribute of this name. -/
def IsCarried (name : String) : Prop :=
  ∃ source d, (Document.parse source).result = .ok d ∧ ∃ e ∈ d.elements, e.hasAttr name

theorem mem_names_of_hasAttr {e : Element} {name : String} (h : e.hasAttr name) : name ∈ e.attrs.map Prod.fst := by
  obtain ⟨value, hvalue⟩ := Option.isSome_iff_exists.1 h
  obtain ⟨before, after, heq, -⟩ := List.lookup_eq_some_iff.1 hvalue
  simp [heq]

/-! ### Names in templates -/

/-- A start tag of a source is named, and its attributes are, by what names are made of. -/
theorem isAttrName_of_startTags {source : String} {tag : String × List (String × Option String)}
    (h : tag ∈ startTags source) : ∀ a ∈ tag.2, IsAttrName a.1.toList := by
  obtain ⟨t, ht, hopens⟩ := List.mem_filterMap.1 h
  cases hk : t.kind with
  | startTag name attrs selfClosing =>
    rw [hk] at hopens
    obtain rfl := Option.some.inj hopens
    have visible : t.kind ∈ ((tokens source).map Token.kind).flatMap TokenKind.visible := by
      refine List.mem_flatMap.2 ⟨_, List.mem_map_of_mem ht, ?_⟩
      rw [hk]
      exact List.mem_singleton_self _
    obtain ⟨here, hfits⟩ := (lawful_tokens source).fits_mem visible
    rw [hk] at hfits
    cases here with
    | markup => exact hfits.2.1
    | plain n => exact hfits.elim
    | script n part => exact hfits.elim
  | _ => rw [hk] at hopens; cases hopens

theorem IsCarried.isAttrName {name : String} (h : IsCarried name) : IsAttrName name.toList := by
  obtain ⟨source, d, hparse, e, he, hname⟩ := h
  obtain ⟨a, ha, rfl⟩ := List.mem_map.1 (mem_names_of_hasAttr hname)
  have tag : (e.name, e.attrs) ∈ startTags source := by
    rw [startTags_of_parse hparse]
    exact List.mem_map_of_mem he
  exact isAttrName_of_startTags tag a ha

/-! ### A template for a name -/

def paragraphTag (name : String) : TokenKind := .startTag "p" [(name, none)] false

def paragraphSource (name : String) : String :=
  String.ofList ((paragraphTag name).print ++ ['<', '/', 'p', '>'])

theorem isTagName_p : IsTagName ['p'] where
  head := ⟨'p', [], rfl, by decide⟩
  chars := by
    intro c hc
    obtain rfl := List.mem_singleton.1 hc
    exact isNameChar_of_isAlpha (by decide) (by decide)

theorem events_paragraphSource {name : String} (h : IsAttrName name.toList) : ∃ place,
    events (paragraphSource name).toList = [.startTag 0 ['p'] [(name.toList, [])] false, .endTag place ['p']] := by
  have attrs : ReadableAttrs [(name, none)] := by
    refine ⟨?_, by simp, ?_, ⟨nofun, trivial⟩⟩
    · intro a ha
      obtain rfl := List.mem_singleton.1 ha
      exact h
    · intro a ha
      obtain rfl := List.mem_singleton.1 ha
      exact nofun
  let place := 0 + (paragraphTag name).print.length
  have begins := reads_startTag (show IsTagName "p".toList from isTagName_p) attrs false 0
  have whole : Reads 0 (.text .markup none) ((paragraphTag name).print ++ ['<', '/', 'p', '>']) (.text .markup none)
      [.startTag 0 ['p'] [(name.toList, [])] false, .endTag place ['p']] := begins.trans (reads_endTag isTagName_p place)
  have run : Reader.start.run ((paragraphTag name).print ++ ['<', '/', 'p', '>']) = _ := whole
  refine ⟨place, ?_⟩
  rw [paragraphSource, String.toList_ofList, events, run]
  rfl

/-- The element has one attribute, with no value or an empty one. -/
structure HasOnly (e : Element) (name : String) : Prop where
  here : e.attr? name = some ""
  others : ∀ n, n ≠ name → e.attr? n = none

/-- One attribute stays under its name, whatever is declared. -/
theorem ordered_singleton (n : List Char) (order : List Declared) :
    ∃ v : Option String, ordered [(n, [])] order = [(String.ofList n, v)] ∧ v.getD "" = "" := by
  have sorted : Follower.sortAttrs [(n, [])] = [(n, [])] := List.perm_singleton.1 (List.mergeSort_perm _ _)
  have kept : (inDeclaredOrder [(n, [])] order).map Prod.fst = [n] :=
    List.perm_singleton.1 (perm_names_inDeclaredOrder (by simp) order)
  have names : (ordered [(n, [])] order).map Prod.fst = [String.ofList n] := by
    rw [ordered, sorted, List.map_map, show Prod.fst ∘ _ = String.ofList ∘ Prod.fst from rfl, ← List.map_map, kept]
    rfl
  obtain ⟨a, heq, hname⟩ := List.map_eq_singleton_iff.1 names
  refine ⟨a.2, by rw [heq, ← hname], ?_⟩
  obtain ⟨b, hb, -, hvalue⟩ := mem_ordered (heq ▸ List.mem_singleton_self a)
  obtain rfl := List.mem_singleton.1 hb
  cases hv : a.2 with
  | none => rfl
  | some v => exact hvalue v hv

theorem parse_paragraphSource {name : String} (h : IsAttrName name.toList) :
    ∃ e, HasOnly e name ∧ (Document.parse (paragraphSource name)).result = .ok [.element e []] := by
  obtain ⟨place, hevents⟩ := events_paragraphSource h
  have notVoid : isVoid "p" = false := by decide +kernel
  obtain ⟨v, hattrs, hv⟩ := ordered_singleton name.toList (startAt ['p'] (paragraphSource name).toList).1
  rw [String.ofList_toList] at hattrs
  refine ⟨⟨"p", [(name, v)], .endTag⟩, ⟨?_, ?_⟩, parse_of_trace ⟨⟨by simp, ?_, trivial⟩, trivial⟩ trivial ?_⟩
  · simp [Element.attr?, Named.get?_cons, hv]
  · intro n hn
    simp [Element.attr?, Named.get?_cons, hn]
  · exact ⟨fun _ => notVoid, nofun, fun _ => rfl⟩
  · rw [hevents]
    simp [Trail.trace, Trail.symbols, Trail.start, symbols, kinds, Node.kinds, TokenKind.symbols, hattrs]

/-- Some template has an element with this attribute alone. -/
theorem IsAttrName.carrier {name : String} (h : IsAttrName name.toList) :
    ∃ source d, (Document.parse source).result = .ok d ∧ ∃ e ∈ d.elements, HasOnly e name := by
  obtain ⟨e, only, hparse⟩ := parse_paragraphSource h
  refine ⟨_, _, hparse, e, ?_, only⟩
  rw [elements_eq_preorder]
  exact List.mem_cons_self

theorem hasAttr_of_attr? {e : Element} {name value : String} (h : e.attr? name = some value) : e.hasAttr name := by
  obtain ⟨v, hv, -⟩ := Option.map_eq_some_iff.1 h
  exact Option.isSome_iff_exists.2 ⟨v, hv⟩

/-! ### Names in terms of their characters -/

theorem isNameChar_of_not_isBarred {c : Char} (h : ¬ IsBarred c) (hreturn : c ≠ '\r') : IsNameChar c := by
  have other : ∀ d ∈ ['\t', '\n', '\x0c', ' ', '/', '>', '\x00'], c ≠ d := by
    rintro d hd rfl
    exact h (.inr hd)
  have lowered : c.toLower = c := by
    rcases Text.toLower_cases c with ⟨heq, -⟩ | ⟨hlow, hhigh, -⟩
    · exact heq
    · exact absurd (.inl (Text.isUpper_iff.2 ⟨hlow, hhigh⟩)) h
  refine ⟨?_, ?_, other _ (by decide), other _ (by decide), hreturn⟩
  · rw [nameChar, lowered]
    exact if_neg (other _ (by decide))
  · simp [isSpace, other ' ' (by decide), other '\t' (by decide), other '\n' (by decide), other '\x0c' (by decide)]

theorem isAttrName_iff {n : List Char} : IsAttrName n ↔ IsAttributeName n ∧ '\r' ∉ n := by
  constructor
  · intro h
    exact ⟨h.isAttributeName, fun hreturn => (h.chars _ hreturn).notReturn rfl⟩
  · rintro ⟨h, hreturn⟩
    refine ⟨h.notEmpty, fun c hc => isNameChar_of_not_isBarred (h.chars c hc) ?_, h.tail⟩
    rintro rfl
    exact hreturn hc

theorem isCarried_iff {name : String} : IsCarried name ↔ IsAttributeName name.toList ∧ '\r' ∉ name.toList := by
  rw [← isAttrName_iff]
  constructor
  · exact IsCarried.isAttrName
  · intro h
    obtain ⟨source, d, hparse, e, he, only⟩ := h.carrier
    exact ⟨source, d, hparse, e, he, hasAttr_of_attr? only.here⟩

end Stencil.Markup

namespace Stencil.Directive

open Markup

/-- Some element of some template does not pass the check, for what it has as this directive. -/
def TakesEffect (c : Config) (d : Directive) : Prop :=
  ∃ source document, (Document.parse source).result = .ok document ∧
    ∃ e ∈ document.elements, ∃ value, c.check e = .error (.directiveSyntax (d.attr c) value)

variable {c : Config} {d : Directive}

theorem not_accepts_empty (c : Config) (d : Directive) : d.accepts c "" = false := by
  cases d <;> rfl

theorem check_of_hasOnly {e : Element} (h : HasOnly e (d.attr c)) :
    c.check e = .error (.directiveSyntax (d.attr c) "") := by
  cases hcheck : c.check e with
  | ok u => exact absurd ⟨h.here, not_accepts_empty c d⟩ (Config.not_faulty_of_check hcheck d "")
  | error err =>
    obtain ⟨d', value, hfirst, rfl⟩ := Config.firstFault_of_check hcheck
    have hattr := hfirst.faulty.1
    by_cases hname : d'.attr c = d.attr c
    · rw [hname, h.here] at hattr
      rw [hname, Option.some.inj hattr]
    · rw [h.others _ hname] at hattr
      cases hattr

theorem takesEffect_iff : d.TakesEffect c ↔ IsCarried (d.attr c) := by
  constructor
  · rintro ⟨source, document, hparse, e, he, value, hcheck⟩
    obtain ⟨d', value', hfirst, heq⟩ := Config.firstFault_of_check hcheck
    obtain ⟨hname, rfl⟩ := Error.directiveSyntax.inj heq
    rw [hname]
    exact ⟨source, document, hparse, e, he, hasAttr_of_attr? hfirst.faulty.1⟩
  · intro carried
    obtain ⟨source, document, hparse, e, he, only⟩ := carried.isAttrName.carrier
    exact ⟨source, document, hparse, e, he, "", check_of_hasOnly only⟩

/-- Under any configuration, some template has an element with the attribute of a directive, and the directive takes effect
in one, exactly if the name of the attribute is one: it is not empty, it has no capitals of ASCII, blanks of HTML, carriage
returns, slashes, `>` or nulls, and an equals sign only at its beginning. -/
theorem usable_iff (c : Config) (d : Directive) :
    (IsCarried (d.attr c) ↔ IsAttributeName (d.attr c).toList ∧ '\r' ∉ (d.attr c).toList) ∧
      (d.TakesEffect c ↔ IsAttributeName (d.attr c).toList ∧ '\r' ∉ (d.attr c).toList) :=
  ⟨isCarried_iff, takesEffect_iff.trans isCarried_iff⟩

/-- A name with capitals is accepted in a configuration, but no attribute of a template has it. -/
theorem not_usable_capital :
    let c : Config := { conditionAttr := "T:IF" }
    c.validate = .ok () ∧ ¬ IsCarried (condition.attr c) := by
  have accepted : Config.validate { conditionAttr := "T:IF" } = .ok () := rfl
  refine ⟨accepted, fun carried => ?_⟩
  obtain ⟨named, -⟩ := isCarried_iff.1 carried
  exact named.chars 'T' List.mem_cons_self (.inl (by decide))

end Stencil.Directive
