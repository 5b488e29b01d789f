import Stencil.Proofs.Markup.Faithful
import Stencil.Proofs.Markup.RoundTrip

/-! Rendering a source without directives, and reading what it prints. What is read back is the tree of the source tidied
up, exactly as far as nothing in that tree is printed as something else. -/

namespace Stencil.Markup

/-! ### Tidying keeps -/

theorem balanced_joinText {s : String} {ns : List Node} (h : Balanced ns) : Balanced (joinText s ns) := by
  cases ns with
  | nil => exact ⟨trivial, trivial⟩
  | cons n ns =>
    cases n with
    | text t => exact ⟨trivial, h.2⟩
    | element e children => exact ⟨trivial, h⟩

theorem balanced_tidy {ns : List Node} (h : Balanced ns) : Balanced (tidy ns) := by
  induction ns using nodes_induction with
  | nil => trivial
  | text s ns ih =>
    rw [tidy, Node.tidy, joinOnto]
    split
    · exact ih h.2
    · exact balanced_joinText (ih h.2)
  | element e children ns ihc ih =>
    obtain ⟨⟨hdistinct, hclosed, hchildren⟩, hns⟩ := h
    have closed : e.Closed (tidy children) :=
      ⟨hclosed.endTag, hclosed.void, fun hend => by rw [hclosed.childless hend, tidy]⟩
    exact ⟨⟨hdistinct, closed, ihc hchildren⟩, ih hns⟩

theorem elements_text (s : String) (ns : List Node) : Document.elements (.text s :: ns) = Document.elements ns := by
  unfold Document.elements
  rw [visit]

theorem elements_joinText (s : String) (ns : List Node) :
    Document.elements (joinText s ns) = Document.elements ns := by
  cases ns with
  | nil => exact elements_text s []
  | cons n ns =>
    cases n with
    | text t => exact (elements_text (s ++ t) ns).trans (elements_text t ns).symm
    | element e children => exact elements_text s _

/-- Tidying keeps the elements and their order. -/
theorem elements_tidy (ns : List Node) : Document.elements (tidy ns) = Document.elements ns := by
  induction ns using nodes_induction with
  | nil => rfl
  | text s ns ih =>
    rw [tidy, Node.tidy, joinOnto, elements_text]
    split
    · exact ih
    · rw [elements_joinText, ih]
  | element e children ns ihc ih =>
    unfold Document.elements at ihc ih ⊢
    rw [tidy, Node.tidy, joinOnto, visit_element, visit_element, ihc, ih]

theorem noDirectives_tidy {c : Config} {d : Document} (h : NoDirectives c d) : NoDirectives c (tidy d) := by
  rw [NoDirectives, elements_tidy]
  exact h

/-- The start tags of a tree have the attributes of its elements. -/
theorem isSpaced_kinds {ns : List Node} (h : ∀ e ∈ Document.elements ns, Spaced e.attrs) :
    ∀ k ∈ kinds ns, k.IsSpaced := by
  induction ns using nodes_induction with
  | nil => simp [kinds]
  | text s ns ih =>
    rw [elements_text] at h
    rw [kinds, Node.kinds]
    exact List.forall_mem_cons.2 ⟨trivial, ih h⟩
  | element e children ns ihc ih =>
    unfold Document.elements at h ihc ih
    rw [visit_element, List.forall_mem_cons, List.forall_mem_append] at h
    obtain ⟨he, hchildren, hns⟩ := h
    exact forall_kinds_element (fun _ => he) (fun _ => trivial) (ihc hchildren) (ih hns)

/-! ### Passing through -/

variable {c : Config}

/-- A source without directives is printed tidied up, whatever the scope. If no attribute without a value stands before
one whose name begins with an equals sign, the print is read back as the tidy tree exactly if that survives; and then it
is printed as before. -/
theorem parse_toText_iff_survives (hl : c.lineBreaks = false) {source : String} {d : Document}
    (h : (Document.parse source).result = .ok d) (hd : NoDirectives c d) (scope : Scope) :
    ∃ out, Render.toText c d scope = (.ok (), out) ∧
      ((∀ e ∈ d.elements, Spaced e.attrs) → ((Document.parse out).result = .ok (tidy d) ↔ Survives (tidy d))) ∧
      ((Document.parse out).result = .ok (tidy d) → ∀ scope', Render.toText c (tidy d) scope' = (.ok (), out)) := by
  obtain ⟨-, hlawful, hbalanced⟩ := lawful_parse h
  refine ⟨String.ofList (print (tidy d)), Render.toText_of_noDirectives hl hd scope, ?_, ?_⟩
  · intro hspaced
    have lawful : Lawful .markup (kinds (tidy d)) := by
      rw [kinds_tidy]
      exact lawful_tidyKinds hlawful
    have normal : IsNormal (kinds (tidy d)) := by
      rw [kinds_tidy]
      exact (isTidy_tidyKinds _).isNormal
    have spaced : ∀ k ∈ kinds (tidy d), k.IsSpaced := isSpaced_kinds (by rwa [elements_tidy])
    exact parse_print_iff (balanced_tidy hbalanced) lawful spaced normal
  · intro _ scope'
    rw [Render.toText_of_noDirectives hl (noDirectives_tidy hd), print_tidy_tidy]

/-- A paragraph with a title, texts with blanks, and a line break. -/
def page : Document :=
  [.element ⟨"p", [("title", some "1 & 2")], .endTag⟩ [.text " a", .element ⟨"br", [], .void⟩ [], .text "b "]]

theorem ordered_nil : ordered [] [] = [] :=
  (ordered_self (by simp) : ordered (List.map readAttr []) _ = _)

theorem ordered_title (v : String) :
    ordered [("title".toList, v.toList)] [("title".toList, true)] = [("title", some v)] :=
  (ordered_self (by simp) : ordered ([("title", some v)].map readAttr) _ = _)

theorem parse_page : (Document.parse "<p title='1 & &#50;'> a<br>b </p>").result = .ok page := by
  have notVoid : isVoid "p" = false := by decide +kernel
  have void : isVoid "br" = true := by decide +kernel
  have balanced : Balanced page :=
    ⟨⟨by decide, ⟨fun _ => notVoid, nofun, fun h => absurd rfl h⟩, trivial,
      ⟨by decide, ⟨nofun, fun _ => void, fun _ => rfl⟩, trivial⟩, trivial, trivial⟩, trivial⟩
  have events : events "<p title='1 & &#50;'> a<br>b </p>".toList =
      [.startTag 0 "p".toList [("title".toList, "1 & 2".toList)] false, .text ' ', .text 'a',
        .startTag 23 "br".toList [] false, .text 'b', .text ' ', .endTag 29 "p".toList] := by
    decide +kernel
  have first : startAt "p".toList "<p title='1 & &#50;'> a<br>b </p>".toList =
      ([("title".toList, true)], " a<br>b </p>".toList) := by
    decide +kernel
  have second : startAt "br".toList " a<br>b </p>".toList = ([], "b </p>".toList) := by decide +kernel
  refine parse_of_trace balanced ?_ ?_
  · refine ⟨⟨by decide, ?_⟩, ⟨by decide, ?_⟩, trivial⟩ <;> rintro _ ⟨⟩ <;> rfl
  · rw [events]
    simp only [Trail.trace, Trail.symbols, Trail.after, Trail.start, first, second, ordered_title, ordered_nil]
    rfl

theorem survives_page : Survives (tidy page) := by
  have tidied : kinds (tidy page) = [.startTag "p" [("title", some "1 & 2")] false, .text "a", .startTag "br" [] false,
      .text "b", .endTag "p"] := by
    decide +kernel
  have value : ∀ c ∈ "1 & 2".toList, c ≠ '\r' ∧ c ≠ '\x00' := forall_mem_of_all (by decide)
  have kept : Kept .markup (kinds (tidy page)) := by
    rw [tidied]
    refine ⟨?_, (show '\r' ∉ "a".toList by decide), nofun, (show '\r' ∉ "b".toList by decide), trivial, trivial⟩
    rintro _ (_ | ⟨_, ⟨⟩⟩) _ ⟨⟩ c hc
    exact ⟨(value c hc).1, (value c hc).2⟩
  have plain : ∀ k ∈ kinds (tidy page), k.IsPlain := by
    rw [tidied]
    intro k hk
    simp only [List.mem_cons, List.not_mem_nil, or_false] at hk
    rcases hk with rfl | rfl | rfl | rfl | rfl
    · rintro _ (_ | ⟨_, ⟨⟩⟩)
      exact isPlainName_of_matchesName (by decide)
    · exact (show '<' ∉ "a".toList by decide)
    · exact nofun
    · exact (show '<' ∉ "b".toList by decide)
    · trivial
  have lawful : Lawful .markup (kinds (tidy page)) := by
    rw [kinds_tidy]
    exact lawful_tidyKinds (lawful_parse parse_page).2.1
  exact ⟨kept, (placed_of_plain lawful plain (by simp) : Placed ([] ++ _) _)⟩

theorem parse_toText_page : (Document.parse "<p title='1 & &#50;'> a<br>b </p>").result = .ok page ∧
    ∃ out, Render.toText {} page .empty = (.ok (), out) ∧ (Document.parse out).result = .ok (tidy page) ∧
      ∀ scope, Render.toText {} (tidy page) scope = (.ok (), out) := by
  have elements : page.elements = [⟨"p", [("title", some "1 & 2")], .endTag⟩, ⟨"br", [], .void⟩] := by
    simp [page, Document.elements, visit]
  have directives : NoDirectives {} page := by
    rw [NoDirectives, elements]
    decide
  have spaced : ∀ e ∈ page.elements, Spaced e.attrs := by
    rw [elements]
    simp [Spaced]
  obtain ⟨out, hout, hiff, hagain⟩ := parse_toText_iff_survives rfl parse_page directives .empty
  have back := (hiff spaced).2 survives_page
  exact ⟨parse_page, out, hout, back, hagain back⟩

/-- An empty paragraph with a title. -/
def titled (title : String) : Document := [.element ⟨"p", [("title", some title)], .endTag⟩ []]

theorem parse_titled {source title : String} (place : Nat)
    (hevents : events source.toList =
      [.startTag 0 "p".toList [("title".toList, title.toList)] false, .endTag place "p".toList])
    (hstart : startAt "p".toList source.toList = ([("title".toList, true)], "</p>".toList)) :
    (Document.parse source).result = .ok (titled title) := by
  have notVoid : isVoid "p" = false := by decide +kernel
  have balanced : Balanced (titled title) :=
    ⟨⟨by simp, ⟨fun _ => notVoid, nofun, fun h => absurd rfl h⟩, trivial⟩, trivial⟩
  apply parse_of_trace balanced trivial
  rw [hevents]
  simp only [Trail.trace, Trail.symbols, Trail.start, hstart, ordered_title]
  rfl

theorem toText_titled (title : String) (scope : Scope) :
    Render.toText {} (titled title) scope = (.ok (), String.ofList (print (titled title))) := by
  have directives : NoDirectives {} (titled title) := by
    simp [titled, NoDirectives, Document.elements, visit, Config.isDirective]
  exact Render.toText_of_noDirectives rfl directives scope

/-- A title that a reference spells as a carriage return is printed as that, and read back as a newline. -/
theorem return_lost :
    (Document.parse "<p title='&#13;'></p>").result = .ok (titled "\r") ∧
      Render.toText {} (titled "\r") .empty = (.ok (), "<p title=\"\r\"></p>") ∧
      (Document.parse "<p title=\"\r\"></p>").result = .ok (titled "\n") ∧ titled "\n" ≠ tidy (titled "\r") ∧
      Render.toText {} (titled "\n") .empty = (.ok (), "<p title=\"\n\"></p>") := by
  refine ⟨parse_titled 17 (by decide +kernel) (by decide +kernel), ?_,
    parse_titled 13 (by decide +kernel) (by decide +kernel), ?_, ?_⟩
  · rw [toText_titled]
    rfl
  · simp [titled, tidy, Node.tidy, joinOnto]
  · rw [toText_titled]
    rfl

end Stencil.Markup
