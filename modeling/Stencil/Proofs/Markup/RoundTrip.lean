import Stencil.Proofs.Markup.Placing

/-! Canonical trees are read back as they are. In a canonical tree names are plain, elements are closed as their names
allow, texts are trimmed and neither empty nor adjacent, and nothing holds a carriage return or a null. -/

namespace Stencil.Markup

/-! ### Canonical trees -/

def isSmallLetter (c : Char) : Bool := 'a' ≤ c && c ≤ 'z'

def isElementChar (c : Char) : Bool := isSmallLetter c || c.isDigit || c = ':' || c = '_' || c = '-'

def isAttrStart (c : Char) : Bool := isSmallLetter c || c = '_' || c = ':' || c = '@'

def isAttrChar (c : Char) : Bool := isAttrStart c || c.isDigit || c = '.' || c = '-'

/-- A name begins with one kind of character and goes on with another. -/
def matchesName (first later : Char → Bool) : List Char → Bool
  | [] => false
  | c :: cs => first c && cs.all later

/-- An element with a canonical name and canonical attributes, closed as its name allows. -/
structure Element.Canonical (c : Config) (e : Element) (children : List Node) : Prop where
  name : matchesName isSmallLetter isElementChar e.name.toList
  notRaw : e.name ≠ "script" ∧ e.name ≠ "style"
  attrNames : ∀ a ∈ e.attrs, matchesName isAttrStart isAttrChar a.1.toList
  distinct : (e.attrs.map Prod.fst).Nodup
  noDirective : ∀ a ∈ e.attrs, c.isDirective a.1 = false
  values : ∀ a ∈ e.attrs, ∀ v ∈ a.2, ∀ ch ∈ v.toList, ch ≠ '\r' ∧ ch ≠ '\x00'
  closing : if isVoid e.name then e.closing ≠ .endTag else e.closing ≠ .void
  childless : e.closing ≠ .endTag → children = []
  plain : e.name = "title" ∨ e.name = "textarea" → children = [] ∨ ∃ s, children = [.text s]

/-- Escaped text that is trimmed and not empty. -/
def CanonicalText (s : String) : Prop :=
  ∃ t, s.toList = escaped t ∧ t ≠ [] ∧ (∀ ch ∈ t, ch ≠ '\r' ∧ ch ≠ '\x00') ∧ Text.IsTrimmed t

/-- Nodes do not begin with a text. -/
def StartsWithElement (ns : List Node) : Prop := ∀ s, ns.head? ≠ some (.text s)

mutual

def Node.Canonical (c : Config) : Node → Prop
  | .text s => CanonicalText s
  | .element e children => e.Canonical c children ∧ Canonical c children

def Canonical (c : Config) : List Node → Prop
  | [] => True
  | n :: ns => n.Canonical c ∧ (∀ s, n = .text s → StartsWithElement ns) ∧ Canonical c ns

end

variable {c : Config}

theorem canonical_text {s : String} {ns : List Node} (h : Canonical c (.text s :: ns)) :
    CanonicalText s ∧ StartsWithElement ns ∧ Canonical c ns := ⟨h.1, h.2.1 s rfl, h.2.2⟩

theorem canonical_element {e : Element} {children ns : List Node} (h : Canonical c (.element e children :: ns)) :
    e.Canonical c children ∧ Canonical c children ∧ Canonical c ns := ⟨h.1.1, h.1.2, h.2.2⟩

/-! ### Names -/

/-- The code points of the characters of canonical names: small letters, digits and `:`, and `-`, `.`, `@` and `_`. -/
def IsWordCode (n : Nat) : Prop :=
  (97 ≤ n ∧ n ≤ 122) ∨ (48 ≤ n ∧ n ≤ 58) ∨ n = 45 ∨ n = 46 ∨ n = 64 ∨ n = 95

theorem isPlainChar_of_isWordCode {ch : Char} (h : IsWordCode ch.toNat) : IsPlainChar ch := by
  unfold IsWordCode at h
  have other : ∀ d : Char, ¬ IsWordCode d.toNat → ch ≠ d := by
    rintro d hd rfl
    exact hd h
  have lowered : ch.toLower = ch := by
    rcases Text.toLower_cases ch with ⟨hl, -⟩ | ⟨h1, h2, -⟩
    · exact hl
    · omega
  have notNull : ch ≠ '\x00' := other _ (by unfold IsWordCode; decide)
  refine ⟨⟨?_, ?_, other _ (by unfold IsWordCode; decide), other _ (by unfold IsWordCode; decide),
    other _ (by unfold IsWordCode; decide)⟩, ?_, other _ (by unfold IsWordCode; decide)⟩
  · rw [nameChar, lowered, shown, if_neg notNull]
  · apply Bool.eq_false_iff.2
    intro hs
    have bound := isSpace_bound hs
    omega
  · apply Bool.eq_false_iff.2
    intro hs
    have bounds := Text.isBlank_bounds hs
    omega

theorem isWordCode_of_isSmallLetter {ch : Char} (h : isSmallLetter ch) : IsWordCode ch.toNat := by
  simp only [isSmallLetter, Bool.and_eq_true, decide_eq_true_eq] at h
  exact .inl (Text.toNat_bounds h)

theorem isWordCode_of_isDigit {ch : Char} (h : ch.isDigit) : IsWordCode ch.toNat := by
  simp only [Char.isDigit, Bool.and_eq_true, decide_eq_true_eq, ge_iff_le, UInt32.le_iff_toNat_le] at h
  have bounds : 48 ≤ ch.toNat ∧ ch.toNat ≤ 57 := h
  exact .inr (.inl ⟨bounds.1, by omega⟩)

theorem isWordCode_of_isElementChar {ch : Char} (h : isElementChar ch) : IsWordCode ch.toNat := by
  simp only [isElementChar, Bool.or_eq_true, decide_eq_true_eq] at h
  rcases h with (((h | h) | rfl) | rfl) | rfl
  · exact isWordCode_of_isSmallLetter h
  · exact isWordCode_of_isDigit h
  all_goals unfold IsWordCode; decide

theorem isWordCode_of_isAttrStart {ch : Char} (h : isAttrStart ch) : IsWordCode ch.toNat := by
  simp only [isAttrStart, Bool.or_eq_true, decide_eq_true_eq] at h
  rcases h with ((h | rfl) | rfl) | rfl
  · exact isWordCode_of_isSmallLetter h
  all_goals unfold IsWordCode; decide

theorem isWordCode_of_isAttrChar {ch : Char} (h : isAttrChar ch) : IsWordCode ch.toNat := by
  simp only [isAttrChar, Bool.or_eq_true, decide_eq_true_eq] at h
  rcases h with ((h | h) | rfl) | rfl
  · exact isWordCode_of_isAttrStart h
  · exact isWordCode_of_isDigit h
  all_goals unfold IsWordCode; decide

theorem matchesName_cases {first later : Char → Bool} {n : List Char} (h : matchesName first later n) :
    ∃ ch cs, n = ch :: cs ∧ first ch ∧ ∀ d ∈ cs, later d := by
  cases n with
  | nil => cases h
  | cons ch cs =>
    simp only [matchesName, Bool.and_eq_true, List.all_eq_true] at h
    exact ⟨ch, cs, rfl, h.1, h.2⟩

theorem isTagName_of_matchesName {n : List Char} (h : matchesName isSmallLetter isElementChar n) : IsTagName n := by
  obtain ⟨ch, cs, rfl, hfirst, hlater⟩ := matchesName_cases h
  have alpha : ch.isAlpha := by
    simp only [isSmallLetter, Bool.and_eq_true, decide_eq_true_eq] at hfirst
    exact Text.isAlpha_iff.2 (.inr (Text.toNat_bounds hfirst))
  refine ⟨⟨ch, cs, rfl, alpha⟩, fun d hd => ?_⟩
  rcases List.mem_cons.1 hd with rfl | hd
  · exact (isPlainChar_of_isWordCode (isWordCode_of_isSmallLetter hfirst)).name
  · exact (isPlainChar_of_isWordCode (isWordCode_of_isElementChar (hlater d hd))).name

theorem isPlainName_of_matchesName {n : List Char} (h : matchesName isAttrStart isAttrChar n) : IsPlainName n := by
  obtain ⟨ch, cs, rfl, hfirst, hlater⟩ := matchesName_cases h
  refine ⟨by simp, fun d hd => ?_⟩
  rcases List.mem_cons.1 hd with rfl | hd
  · exact isPlainChar_of_isWordCode (isWordCode_of_isAttrStart hfirst)
  · exact isPlainChar_of_isWordCode (isWordCode_of_isAttrChar (hlater d hd))

theorem IsPlainName.isAttrName {n : List Char} (h : IsPlainName n) : IsAttrName n where
  notEmpty := h.notEmpty
  chars ch hch := (h.chars ch hch).name
  tail heq := (h.chars '=' (List.mem_of_mem_tail heq)).notEquals rfl

theorem spaced_of_plain {attrs : List (String × Option String)} (h : ∀ a ∈ attrs, IsPlainName a.1.toList) :
    Spaced attrs := by
  induction attrs with
  | nil => trivial
  | cons a attrs ih =>
    refine ⟨fun b hb _ heq => ?_, ih fun b hb => h b (List.mem_cons_of_mem _ hb)⟩
    have hplain := h b (List.mem_cons_of_mem _ (List.mem_of_mem_head? hb))
    exact (hplain.chars '=' (List.mem_of_mem_head? heq)).notEquals rfl

/-! ### Texts -/

/-- The text of a canonical tree, as the reader and the scan need it. -/
theorem CanonicalText.facts {s : String} (h : CanonicalText s) :
    s ≠ "" ∧ Text.IsTrimmed s.toList ∧ '<' ∉ s.toList ∧ ∀ ch ∈ s.toList, IsValueChar ch := by
  obtain ⟨t, hs, hne, hchars, htrim⟩ := h
  have each : ∀ ch ∈ s.toList, ch ≠ '<' ∧ IsValueChar ch := by
    intro ch hch
    rw [hs] at hch
    obtain ⟨d, hd, hch⟩ := List.mem_flatMap.1 hch
    rcases mem_escape hch with ⟨rfl, hlt⟩ | hch
    · obtain ⟨hreturn, hnull⟩ := hchars ch hd
      exact ⟨hlt, hreturn, hnull⟩
    · exact isValueChar_of_escape hch
  refine ⟨?_, ?_, fun hlt => (each _ hlt).1 rfl, fun ch hch => (each ch hch).2⟩
  · rintro rfl
    obtain ⟨d, t, rfl⟩ := List.exists_cons_of_ne_nil hne
    have empty : (Follower.escape d).toList = [] := (List.append_eq_nil_iff.1 (hs.symm.trans rfl)).1
    exact Follower.escape_ne_empty d (String.toList_eq_nil_iff.1 empty)
  · have trimmed : Text.trim s.toList = s.toList := by rw [hs, trim_escaped, htrim.trim_eq]
    exact trimmed ▸ Text.isTrimmed_trim _

/-! ### Canonical trees written out -/

theorem balanced_of_canonical {ns : List Node} (h : Canonical c ns) : Balanced ns := by
  induction ns using nodes_induction with
  | nil => trivial
  | text s ns ih => exact ⟨trivial, ih (canonical_text h).2.2⟩
  | element e children ns ihc ih =>
    obtain ⟨he, hchildren, hns⟩ := canonical_element h
    have hclosing := he.closing
    refine ⟨⟨he.distinct, ⟨fun hend => ?_, fun hvoid => ?_, he.childless⟩, ihc hchildren⟩, ih hns⟩
    · cases hv : isVoid e.name with
      | false => rfl
      | true =>
        rw [if_pos hv] at hclosing
        exact absurd hend hclosing
    · cases hv : isVoid e.name with
      | true => rfl
      | false =>
        rw [if_neg (by simp [hv])] at hclosing
        exact absurd hvoid hclosing

theorem noDirectives_of_canonical {ns : List Node} (h : Canonical c ns) : NoDirectives c ns := by
  induction ns using nodes_induction with
  | nil => simp [NoDirectives, Document.elements, visit]
  | text s ns ih => exact noDirectives_text.2 (ih (canonical_text h).2.2)
  | element e children ns ihc ih =>
    obtain ⟨he, hchildren, hns⟩ := canonical_element h
    exact noDirectives_element.2 ⟨he.noDirective, ihc hchildren, ih hns⟩

/-- Tokens that may stand in a content and are read back there. -/
def Readable : Content → List TokenKind → Prop
  | _, [] => True
  | content, k :: ks => (k.Fits content ∧ k.Kept content ∧ k.IsSpaced ∧ k.IsPlain) ∧ Readable (content.next k) ks

theorem readable_append {content : Content} {ks ls : List TokenKind} (hk : Readable content ks)
    (hl : Readable (content.last ks) ls) : Readable content (ks ++ ls) := by
  induction ks generalizing content with
  | nil => exact hl
  | cons k ks ih => exact ⟨hk.1, ih hk.2 hl⟩

theorem Readable.parts {content : Content} {ks : List TokenKind} (h : Readable content ks) :
    Lawful content ks ∧ Kept content ks ∧ (∀ k ∈ ks, k.IsSpaced) ∧ ∀ k ∈ ks, k.IsPlain := by
  induction ks generalizing content with
  | nil => exact ⟨trivial, trivial, by simp, by simp⟩
  | cons k ks ih =>
    obtain ⟨⟨hfits, hkept, hspaced, hplain⟩, hks⟩ := h
    obtain ⟨h1, h2, h3, h4⟩ := ih hks
    exact ⟨⟨hfits, h1⟩, ⟨hkept, h2⟩, List.forall_mem_cons.2 ⟨hspaced, h3⟩, List.forall_mem_cons.2 ⟨hplain, h4⟩⟩

theorem readable_text {content : Content} (hc : content.isScript = false) {s : String} (h : CanonicalText s) :
    (TokenKind.text s).Fits content ∧ (TokenKind.text s).Kept content ∧ (TokenKind.text s).IsSpaced ∧
      (TokenKind.text s).IsPlain := by
  obtain ⟨-, -, hlt, hchars⟩ := h.facts
  obtain ⟨t, hs, -⟩ := h
  cases content with
  | markup => exact ⟨⟨t, hs⟩, fun hr => (hchars _ hr).notReturn rfl, trivial, hlt⟩
  | plain n => exact ⟨⟨t, hs⟩, hchars, trivial, hlt⟩
  | script n part => cases hc

/-- The content that a canonical start tag begins is markup, or plain text that its end tag ends. -/
theorem content_of_canonical {e : Element} {children : List Node} (h : e.Canonical c children) :
    Content.ofStartTag e.name.toList false = .markup ∨
      (Content.ofStartTag e.name.toList false = .plain e.name.toList ∧
        (children = [] ∨ ∃ s, children = [.text s])) := by
  have raw : ¬ (e.name.toList = "script".toList ∨ e.name.toList = "style".toList) := by
    rintro (heq | heq)
    · exact h.notRaw.1 (String.toList_inj.1 heq)
    · exact h.notRaw.2 (String.toList_inj.1 heq)
  rw [Content.ofStartTag, if_neg (by simp), if_neg raw]
  split
  · next hplain =>
    refine .inr ⟨rfl, h.plain ?_⟩
    rcases hplain with heq | heq
    · exact .inr (String.toList_inj.1 heq)
    · exact .inl (String.toList_inj.1 heq)
  · exact .inl rfl

theorem readable_startTag {e : Element} {children : List Node} (h : e.Canonical c children) (selfClosing : Bool) :
    let k := TokenKind.startTag e.name e.attrs selfClosing
    k.Fits .markup ∧ k.Kept .markup ∧ k.IsSpaced ∧ k.IsPlain := by
  have plain : ∀ a ∈ e.attrs, IsPlainName a.1.toList := fun a ha => isPlainName_of_matchesName (h.attrNames a ha)
  refine ⟨⟨isTagName_of_matchesName h.name, fun a ha => (plain a ha).isAttrName, h.distinct⟩, ?_, spaced_of_plain plain,
    plain⟩
  intro a ha v hv ch hch
  obtain ⟨hreturn, hnull⟩ := h.values a ha v hv ch hch
  exact ⟨hreturn, hnull⟩

theorem readable_endTag {content : Content} {name : String} (hname : IsTagName name.toList)
    (hcontent : content = .markup ∨ name.toList = content.name) : Readable content [.endTag name] := by
  refine ⟨⟨?_, by cases content <;> trivial, trivial, trivial⟩, trivial⟩
  cases content <;> exact ⟨hname, hcontent⟩

theorem readable_kinds {ns : List Node} (h : Canonical c ns) : Readable .markup (kinds ns) := by
  induction ns using nodes_induction with
  | nil => trivial
  | text s ns ih =>
    obtain ⟨hs, -, hns⟩ := canonical_text h
    exact ⟨readable_text rfl hs, ih hns⟩
  | element e children ns ihc ih =>
    obtain ⟨he, hchildren, hns⟩ := canonical_element h
    have alone : Content.last .markup (kinds [.element e children]) = .markup :=
      last_kinds ⟨(balanced_of_canonical h).1, trivial⟩
    rw [kinds, show kinds [] = [] from rfl, List.append_nil] at alone
    refine readable_append ?_ (by rw [alone]; exact ih hns)
    rw [Node.kinds]
    cases e.closing with
    | selfClosing => exact ⟨readable_startTag he true, trivial⟩
    | void => exact ⟨readable_startTag he false, trivial⟩
    | endTag =>
      refine ⟨readable_startTag he false, ?_⟩
      have hname := isTagName_of_matchesName he.name
      change Readable (Content.ofStartTag e.name.toList false) _
      rcases content_of_canonical he with hm | ⟨hm, rfl | ⟨s, rfl⟩⟩
      · rw [hm]
        refine readable_append (ihc hchildren) ?_
        rw [last_kinds (balanced_of_canonical hchildren)]
        exact readable_endTag hname (.inl rfl)
      · rw [hm]
        exact readable_endTag hname (.inr rfl)
      · rw [hm]
        exact ⟨readable_text rfl (canonical_text hchildren).1, readable_endTag hname (.inr rfl)⟩

theorem isTidy_kinds {ns : List Node} (h : Canonical c ns) {ks : List TokenKind} (hks : IsTidy ks)
    (hhead : ∀ k ∈ ks.head?, k.isText = false) : IsTidy (kinds ns ++ ks) := by
  induction ns using nodes_induction generalizing ks with
  | nil => exact hks
  | text s ns ih =>
    obtain ⟨hs, hstarts, hns⟩ := canonical_text h
    obtain ⟨hne, htrim, -, -⟩ := hs.facts
    refine ⟨⟨hne, htrim, ?_⟩, ih hns hks hhead⟩
    cases ns with
    | nil => exact hhead
    | cons n ns =>
      cases n with
      | text t => exact absurd rfl (hstarts t)
      | element e children =>
        rw [kinds, Node.kinds]
        cases e.closing <;> rintro _ ⟨⟩ <;> rfl
  | element e children ns ihc ih =>
    obtain ⟨he, hchildren, hns⟩ := canonical_element h
    rw [kinds, Node.kinds]
    cases e.closing with
    | selfClosing => exact ih hns hks hhead
    | void => exact ih hns hks hhead
    | endTag =>
      have after : IsTidy (.endTag e.name :: (kinds ns ++ ks)) := ih hns hks hhead
      have inside : IsTidy (.startTag e.name e.attrs false :: (kinds children ++ .endTag e.name :: (kinds ns ++ ks))) :=
        ihc hchildren after (by rintro _ ⟨⟩; rfl)
      simpa using inside

/-- Rendering a canonical tree does not fail, and what it prints is read back as the tree, whatever the scope. -/
theorem parse_toText_of_canonical (hl : c.lineBreaks = false) {d : Document} (h : Canonical c d) (scope : Scope) :
    ∃ out, Render.toText c d scope = (.ok (), out) ∧ (Document.parse out).result = .ok d := by
  have tidied : IsTidy (kinds d ++ []) := isTidy_kinds h trivial (by simp)
  rw [List.append_nil] at tidied
  have printed : print (tidy d) = print d := by
    rw [print, kinds_tidy, tidyKinds_of_isTidy tidied, print]
  obtain ⟨hlawful, hkept, hspaced, hplain⟩ := (readable_kinds h).parts
  have placed : Placed ([] ++ print d) (kinds d) := placed_of_plain hlawful hplain (by simp)
  refine ⟨String.ofList (print d), ?_, ?_⟩
  · rw [Render.toText_of_noDirectives hl (noDirectives_of_canonical h), printed]
  · exact parse_print (balanced_of_canonical h) hlawful hkept hspaced tidied.isNormal placed

/-- A title with text and an image, in a paragraph with values that need escaping and an attribute without a value. -/
def paragraph : Document :=
  [.element ⟨"p", [("id", some "<\"a\" & 'b'>\n"), ("hidden", none)], .endTag⟩
    [.text "x &amp;lt; y", .element ⟨"img", [("src", some "")], .void⟩ [],
      .element ⟨"title", [], .endTag⟩ [.text "&lt;p>"]]]

theorem parse_toText_paragraph : Canonical {} paragraph ∧
    ∃ out, Render.toText {} paragraph .empty = (.ok (), out) ∧ (Document.parse out).result = .ok paragraph := by
  have text : CanonicalText "x &amp;lt; y" :=
    ⟨"x &lt; y".toList, by decide, by decide, forall_mem_of_all (by decide),
      ⟨by rintro _ ⟨⟩; decide, by rintro _ ⟨⟩; decide⟩⟩
  have title : CanonicalText "&lt;p>" :=
    ⟨"<p>".toList, by decide, by decide, forall_mem_of_all (by decide), ⟨by rintro _ ⟨⟩; decide, by rintro _ ⟨⟩; decide⟩⟩
  have values : ∀ ch ∈ "<\"a\" & 'b'>\n".toList, ch ≠ '\r' ∧ ch ≠ '\x00' := forall_mem_of_all (by decide)
  have outer : Element.Canonical {} ⟨"p", [("id", some "<\"a\" & 'b'>\n"), ("hidden", none)], .endTag⟩
      [.text "x &amp;lt; y", .element ⟨"img", [("src", some "")], .void⟩ [],
        .element ⟨"title", [], .endTag⟩ [.text "&lt;p>"]] :=
    { name := by decide
      notRaw := by decide
      attrNames := by decide
      distinct := by decide
      noDirective := by decide
      values := by
        rintro _ (_ | ⟨_, _ | ⟨_, ⟨⟩⟩⟩) _ ⟨⟩
        exact values
      closing := by decide +kernel
      childless := nofun
      plain := fun h => absurd h (by decide) }
  have image : Element.Canonical {} ⟨"img", [("src", some "")], .void⟩ [] :=
    { name := by decide
      notRaw := by decide
      attrNames := by decide
      distinct := by decide
      noDirective := by decide
      values := by
        rintro _ (_ | ⟨_, ⟨⟩⟩) _ ⟨⟩
        exact nofun
      closing := by decide +kernel
      childless := fun _ => rfl
      plain := fun _ => .inl rfl }
  have inner : Element.Canonical {} ⟨"title", [], .endTag⟩ [.text "&lt;p>"] :=
    { name := by decide
      notRaw := by decide
      attrNames := nofun
      distinct := by decide
      noDirective := nofun
      values := nofun
      closing := by decide +kernel
      childless := nofun
      plain := fun _ => .inr ⟨_, rfl⟩ }
  have children : Canonical {} [.text "x &amp;lt; y", .element ⟨"img", [("src", some "")], .void⟩ [],
      .element ⟨"title", [], .endTag⟩ [.text "&lt;p>"]] :=
    ⟨text, fun _ _ => nofun, ⟨image, trivial⟩, nofun, ⟨inner, title, fun _ _ => nofun, trivial⟩, nofun, trivial⟩
  have whole : Canonical {} paragraph := ⟨⟨outer, children⟩, nofun, trivial⟩
  exact ⟨whole, parse_toText_of_canonical rfl whole .empty⟩

end Stencil.Markup
