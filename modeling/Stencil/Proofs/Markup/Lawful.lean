import Stencil.Proofs.Markup.Following
import Stencil.Proofs.Markup.Tags

/-! Lists of kinds of tokens that some source may have: names are names, attributes are distinct, text is escaped outside
of scripts and styles, and the content of an element with plain or raw text is ended by its own end tag alone. -/

namespace Stencil.Markup

/-- A kind of token may stand in a content. -/
def TokenKind.Fits : Content → TokenKind → Prop
  | .script .., .text _ => True
  | _, .text s => ∃ t, s.toList = escaped t
  | .markup, .startTag name attrs _ =>
    IsTagName name.toList ∧ (∀ a ∈ attrs, IsAttrName a.1.toList) ∧ (attrs.map Prod.fst).Nodup
  | content, .endTag name => IsTagName name.toList ∧ (content = .markup ∨ name.toList = content.name)
  | _, _ => False

/-- The content after a token. -/
def Content.next : Content → TokenKind → Content
  | _, .startTag name _ selfClosing => .ofStartTag name.toList selfClosing
  | _, .endTag _ => .markup
  | content, _ => content

/-- Each kind of token may stand where it stands. -/
def Lawful : Content → List TokenKind → Prop
  | _, [] => True
  | content, k :: ks => k.Fits content ∧ Lawful (content.next k) ks

/-! ### Trimming -/

theorem escaped_append (s t : List Char) : escaped (s ++ t) = escaped s ++ escaped t := List.flatMap_append

/-- An escaped character is not blank at either end, unless it is blank itself and stands alone. -/
theorem escape_blank (c : Char) :
    (Text.isBlank c ∧ (Follower.escape c).toList = [c]) ∨
      (Text.isBlank c = false ∧ Text.IsTrimmed (Follower.escape c).toList ∧ (Follower.escape c).toList ≠ []) := by
  unfold Follower.escape
  split
  · next h => exact .inr ⟨by rw [h]; decide, ⟨by rintro _ ⟨⟩; decide, by rintro _ ⟨⟩; decide⟩, by decide⟩
  · split
    · next h => exact .inr ⟨by rw [h]; decide, ⟨by rintro _ ⟨⟩; decide, by rintro _ ⟨⟩; decide⟩, by decide⟩
    · rw [show c.toString.toList = [c] by simp]
      cases hc : Text.isBlank c with
      | true => exact .inl ⟨rfl, rfl⟩
      | false => exact .inr ⟨rfl, ⟨by simp [hc], by simp [hc]⟩, by simp⟩

theorem escaped_singleton (c : Char) : escaped [c] = (Follower.escape c).toList := by simp [escaped]

theorem trimStart_escaped (t : List Char) : Text.trimStart (escaped t) = escaped (Text.trimStart t) := by
  induction t with
  | nil => rfl
  | cons c t ih =>
    rw [show c :: t = [c] ++ t from rfl, escaped_append, escaped_singleton]
    rcases escape_blank c with ⟨hc, he⟩ | ⟨hc, he, hne⟩
    · have drop : ∀ s, Text.trimStart ([c] ++ s) = Text.trimStart s := by
        intro s
        simp [Text.trimStart, hc]
      rw [he, drop, drop, ih]
    · obtain ⟨d, s, hd⟩ := List.exists_cons_of_ne_nil hne
      rw [Text.trimStart_eq_self (by rw [hd] at he ⊢; exact he.first), Text.trimStart_eq_self (by simp [hc])]
      rw [escaped_append, escaped_singleton]

theorem trimEnd_escaped (t : List Char) : Text.trimEnd (escaped t) = escaped (Text.trimEnd t) := by
  have reversed : ∀ r : List Char, Text.trimEnd (escaped r.reverse) = escaped (Text.trimEnd r.reverse) := by
    intro r
    induction r with
    | nil => rfl
    | cons c r ih =>
      rw [List.reverse_cons, escaped_append, escaped_singleton]
      rcases escape_blank c with ⟨hc, he⟩ | ⟨hc, he, hne⟩
      · have drop : ∀ s, Text.trimEnd (s ++ [c]) = Text.trimEnd s := by
          intro s
          simp [Text.trimEnd, hc]
        rw [he, drop, drop, ih]
      · have last : ∀ d ∈ (escaped r.reverse ++ (Follower.escape c).toList).getLast?, Text.isBlank d = false := by
          rw [List.getLast?_append, List.getLast?_eq_some_getLast hne, Option.some_or, ← List.getLast?_eq_some_getLast hne]
          exact he.last
        rw [Text.trimEnd_eq_self last, Text.trimEnd_eq_self (by simp [hc]), escaped_append, escaped_singleton]
  simpa using reversed t.reverse

theorem trim_escaped (t : List Char) : Text.trim (escaped t) = escaped (Text.trim t) := by
  rw [Text.trim, trimStart_escaped, trimEnd_escaped, Text.trim]

/-! ### Tidying -/

theorem fits_trim {content : Content} {s : String} (h : (TokenKind.text s).Fits content) :
    (TokenKind.text (String.ofList (Text.trim s.toList))).Fits content := by
  cases content with
  | script name part => trivial
  | _ =>
    obtain ⟨t, ht⟩ := h
    exact ⟨Text.trim t, by rw [String.toList_ofList, ht, trim_escaped]⟩

theorem fits_append {content : Content} {s t : String} (hs : (TokenKind.text s).Fits content)
    (ht : (TokenKind.text t).Fits content) : (TokenKind.text (s ++ t)).Fits content := by
  cases content with
  | script name part => trivial
  | _ =>
    obtain ⟨cs, hs⟩ := hs
    obtain ⟨ds, ht⟩ := ht
    exact ⟨cs ++ ds, by rw [String.toList_append, hs, ht, escaped_append]⟩

theorem lawful_joinKind {content : Content} {s : String} {ks : List TokenKind} (hs : (TokenKind.text s).Fits content)
    (hks : Lawful content ks) : Lawful content (joinKind s ks) := by
  unfold joinKind
  split
  · exact hks
  · cases ks with
    | nil => exact ⟨hs, trivial⟩
    | cons k ks =>
      cases k with
      | text t => exact ⟨fits_append hs hks.1, hks.2⟩
      | _ => exact ⟨hs, hks⟩

theorem lawful_tidyKinds {content : Content} {ks : List TokenKind} (h : Lawful content ks) :
    Lawful content (tidyKinds ks) := by
  induction ks generalizing content with
  | nil => trivial
  | cons k ks ih =>
    obtain ⟨hk, hks⟩ := h
    cases k with
    | text s => exact lawful_joinKind (fits_trim hk) (ih hks)
    | _ => exact ⟨hk, ih hks⟩

/-! ### Trees -/

/-- The content after kinds of tokens. -/
def Content.last (content : Content) (ks : List TokenKind) : Content := ks.foldl next content

theorem Content.last_append (content : Content) (ks ls : List TokenKind) :
    content.last (ks ++ ls) = (content.last ks).last ls := List.foldl_append

theorem notVoid_rawNames : isVoid "script" = false ∧ isVoid "style" = false ∧ isVoid "textarea" = false ∧
    isVoid "title" = false := by
  decide +kernel

theorem ofStartTag_of_isVoid {name : String} (h : isVoid name = true) (selfClosing : Bool) :
    Content.ofStartTag name.toList selfClosing = .markup := by
  have other : ∀ n : String, isVoid n = false → name.toList ≠ n.toList := by
    intro n hn heq
    rw [String.toList_inj.1 heq, hn] at h
    cases h
  obtain ⟨hscript, hstyle, htextarea, htitle⟩ := notVoid_rawNames
  have raw : ¬ (name.toList = "script".toList ∨ name.toList = "style".toList) := by
    rintro (heq | heq)
    · exact other _ hscript heq
    · exact other _ hstyle heq
  have plain : ¬ (name.toList = "textarea".toList ∨ name.toList = "title".toList) := by
    rintro (heq | heq)
    · exact other _ htextarea heq
    · exact other _ htitle heq
  rw [Content.ofStartTag, if_neg raw, if_neg plain, ite_self]

/-- After a whole tree comes markup again. -/
theorem last_kinds {ns : List Node} (h : Balanced ns) : Content.last .markup (kinds ns) = .markup := by
  induction ns with
  | nil => rfl
  | cons n ns ih =>
    have first : Content.last .markup n.kinds = .markup := by
      cases n with
      | text s => rfl
      | element e children =>
        rw [Node.kinds]
        cases hc : e.closing with
        | endTag =>
          change Content.last _ (kinds children ++ [.endTag e.name]) = _
          rw [Content.last_append]
          rfl
        | selfClosing => rfl
        | void => exact ofStartTag_of_isVoid (h.1.2.1.void hc) false
    rw [kinds, Content.last_append, first]
    exact ih h.2

end Stencil.Markup
