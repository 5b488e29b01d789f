import Stencil.Proofs.Markup.Sourced

/-! What every tree that is read from a source is like, in terms of the tree alone: names hold no character that would end
them, elements are closed as their names allow, no text is empty, a script or style holds one text at most, and any other
text is markup that stands for itself. -/

namespace Stencil.Markup

/-- A character that no name holds: a name ends at it, or has another in its place. -/
def IsBarred (c : Char) : Prop := c.isUpper ∨ c ∈ ['\t', '\n', '\x0c', ' ', '/', '>', '\x00']

/-- The name of an element: it begins with a small letter. -/
structure IsElementName (n : List Char) : Prop where
  first : ∃ c cs, n = c :: cs ∧ c.isLower
  chars : ∀ c ∈ n, ¬ IsBarred c

/-- The name of an attribute: an equals sign may only be its first character. -/
structure IsAttributeName (n : List Char) : Prop where
  notEmpty : n ≠ []
  chars : ∀ c ∈ n, ¬ IsBarred c
  tail : '=' ∉ n.tail

/-- Text in which neither a tag nor a reference begins, but for references to `&` and `<` themselves. -/
def IsEscaped (s : List Char) : Prop :=
  '<' ∉ s ∧ ∀ before after, s = before ++ '&' :: after → "amp;".toList <+: after ∨ "lt;".toList <+: after

namespace Element

structure IsNamed (e : Element) : Prop where
  name : IsElementName e.name.toList
  attrs : ∀ a ∈ e.attrs, IsAttributeName a.1.toList
  nodup : (e.attrs.map Prod.fst).Nodup

/-- Scripts and styles, if an end tag closes them. -/
def IsScript (e : Element) : Prop := e.closing = .endTag ∧ (e.name = "script" ∨ e.name = "style")

end Element

mutual

/-- A node outside of scripts and styles. -/
def Node.WellFormed : Node → Prop
  | .text s => s ≠ "" ∧ IsEscaped s.toList
  | .element e children => e.IsNamed ∧ e.Closed children ∧
      (e.IsScript → children = [] ∨ ∃ s, s ≠ "" ∧ children = [.text s]) ∧ (¬ e.IsScript → WellFormed children)

def WellFormed : List Node → Prop
  | [] => True
  | n :: ns => n.WellFormed ∧ WellFormed ns

end

/-! ### Names -/

theorem not_capital_of_toLower {c : Char} (h : c.toLower = c) : ¬ (65 ≤ c.toNat ∧ c.toNat ≤ 90) := by
  rcases Text.toLower_cases c with ⟨-, hc⟩ | ⟨-, -, hc⟩
  · exact hc
  · rw [h] at hc
    omega

theorem IsNameChar.not_isBarred {c : Char} (h : IsNameChar c) : ¬ IsBarred c := by
  have notNull : c ≠ '\x00' := by
    rintro rfl
    exact absurd h.kept (by decide)
  obtain ⟨⟨⟨hspace, htab⟩, hline⟩, hfeed⟩ : ((c ≠ ' ' ∧ c ≠ '\t') ∧ c ≠ '\n') ∧ c ≠ '\x0c' := by
    simpa [isSpace] using h.notSpace
  rintro (hupper | hmem)
  · exact not_capital_of_toLower (toLower_of_isNameChar h) (Text.isUpper_iff.1 hupper)
  · simp [htab, hline, hfeed, hspace, h.notSlash, h.notClose, notNull] at hmem

theorem IsTagName.isElementName {n : List Char} (h : IsTagName n) : IsElementName n where
  first := by
    obtain ⟨c, cs, rfl, halpha⟩ := h.head
    have small := not_capital_of_toLower (toLower_of_isNameChar (h.chars c List.mem_cons_self))
    exact ⟨c, cs, rfl, Text.isLower_iff.2 ((Text.isAlpha_iff.1 halpha).resolve_left small)⟩
  chars c hc := (h.chars c hc).not_isBarred

theorem IsAttrName.isAttributeName {n : List Char} (h : IsAttrName n) : IsAttributeName n :=
  ⟨h.notEmpty, fun c hc => (h.chars c hc).not_isBarred, h.tail⟩

/-! ### Escaped text -/

theorem IsEscaped.append {s t : List Char} (hs : IsEscaped s) (ht : IsEscaped t) : IsEscaped (s ++ t) := by
  refine ⟨by simp [hs.1, ht.1], fun before after h => ?_⟩
  rcases List.append_eq_append_iff.1 h with ⟨inner, rfl, rfl⟩ | ⟨inner, rfl, hinner⟩
  · exact ht.2 inner after rfl
  · cases inner with
    | nil => exact ht.2 [] after (by simpa using hinner.symm)
    | cons c inner =>
      obtain ⟨rfl, rfl⟩ := List.cons.inj hinner
      exact (hs.2 before inner rfl).imp (·.trans (List.prefix_append _ _)) (·.trans (List.prefix_append _ _))

theorem isEscaped_reference {s : List Char} (hs : '<' ∉ s ∧ '&' ∉ s) (h : "amp;".toList <+: s ∨ "lt;".toList <+: s) :
    IsEscaped ('&' :: s) := by
  refine ⟨by simpa using hs.1, fun before after heq => ?_⟩
  cases before with
  | nil =>
    obtain ⟨-, rfl⟩ := List.cons.inj heq
    exact h
  | cons c before =>
    obtain ⟨-, rfl⟩ := List.cons.inj heq
    exact absurd hs.2 (by simp)

theorem isEscaped_escape (c : Char) : IsEscaped (Follower.escape c).toList := by
  unfold Follower.escape
  split
  · exact isEscaped_reference (by decide) (.inl (by decide))
  · next hamp =>
    split
    · exact isEscaped_reference (by decide) (.inr (by decide))
    · next hless =>
      refine ⟨by simp [Ne.symm hless], fun before after h => ?_⟩
      have hmem : '&' ∈ c.toString.toList := by
        rw [h]
        simp
      exact absurd hmem (by simp [Ne.symm hamp])

theorem isEscaped_escaped (t : List Char) : IsEscaped (escaped t) := by
  induction t with
  | nil => exact ⟨by simp [escaped], fun before after h => by simp [escaped] at h⟩
  | cons c t ih =>
    rw [show c :: t = [c] ++ t from rfl, escaped_append, escaped_singleton]
    exact (isEscaped_escape c).append ih

/-! ### Texts where they stand -/

/-- A text is not empty, and in a script no other text comes right after it. -/
def TokenKind.IsApart (content : Content) (ks : List TokenKind) : TokenKind → Prop
  | .text s => s ≠ "" ∧ (content.isScript → ∀ k ∈ ks.head?, k.isText = false)
  | _ => True

def Apart : Content → List TokenKind → Prop
  | _, [] => True
  | content, k :: ks => k.IsApart content ks ∧ Apart (content.next k) ks

theorem lawful_append {content : Content} {ks ls : List TokenKind} :
    Lawful content (ks ++ ls) ↔ Lawful content ks ∧ Lawful (content.last ks) ls := by
  induction ks generalizing content with
  | nil => simp [Lawful, Content.last]
  | cons k ks ih =>
    rw [List.cons_append, Lawful, Lawful, ih, and_assoc]
    rfl

theorem apart_append {content : Content} {ks ls : List TokenKind} (h : Apart content (ks ++ ls)) :
    Apart content ks ∧ Apart (content.last ks) ls := by
  induction ks generalizing content with
  | nil => exact ⟨trivial, h⟩
  | cons k ks ih =>
    obtain ⟨hk, h⟩ := h
    obtain ⟨hks, hls⟩ := ih h
    refine ⟨⟨?_, hks⟩, hls⟩
    cases k with
    | text s =>
      refine ⟨hk.1, fun hscript l hl => hk.2 hscript l ?_⟩
      show l ∈ (ks ++ ls).head?
      rw [List.head?_append, Option.mem_def.1 hl, Option.some_or]
      rfl
    | _ => trivial

namespace Follower

theorem apart_pending {content : Content} {f : Follower} (h : f.Gathers) {ks : List TokenKind} (hks : Apart content ks)
    (hnext : content.isScript → ∀ k ∈ ks.head?, k.isText = false) :
    Apart content (f.pending.flatMap TokenKind.visible ++ ks) := by
  unfold pending flush
  cases hg : f.gathered with
  | none => exact hks
  | some gathered => exact ⟨⟨h gathered.1 gathered.2 hg, hnext⟩, hks⟩

/-- The visible kinds of the tokens of lawful events have their texts apart. Only end tags that do not show may come between
two texts, and there are none of them in a script. -/
theorem apart_run {content : Content} (hstage : content.IsStage) {f : Follower} (h : f.Gathers) {es : List Event}
    (hes : LawfulEvents content es) : Apart content (((f.run es).map Token.kind).flatMap TokenKind.visible) := by
  induction es generalizing content f with
  | nil =>
    rw [run, List.map_append, List.flatMap_append]
    exact apart_pending h trivial fun _ _ hk => by cases hk
  | cons e es ih =>
    obtain ⟨he, hes⟩ := hes
    rw [run, List.map_append, List.flatMap_append]
    cases e with
    | text c => exact ih hstage (gathers_step h (.text c)) hes
    | declaration =>
      obtain ⟨cursor, hstep⟩ := step_declaration f
      rw [hstep]
      exact ih hstage h hes
    | startTag place name attrs selfClosing =>
      have later := ih (isStage_ofStartTag name selfClosing) (gathers_step h (.startTag place name attrs selfClosing)) hes
      rw [kinds_startTag, List.flatMap_append, List.append_assoc]
      refine apart_pending h ⟨trivial, by simpa [Content.next] using later⟩ ?_
      rintro _ _ ⟨⟩
      rfl
    | endTag place name =>
      have stage : Content.IsStage .markup := trivial
      have later := ih stage (gathers_step h (.endTag place name)) hes
      rw [kinds_endTag, List.flatMap_append, List.append_assoc, List.flatMap_singleton]
      by_cases hvoid : isVoid (String.ofList name)
      · obtain rfl := markup_of_isVoid hstage he hvoid
        refine apart_pending h (by simpa [TokenKind.visible, hvoid] using later) ?_
        intro hscript
        cases hscript
      · rw [TokenKind.visible, if_neg hvoid]
        refine apart_pending h ⟨trivial, later⟩ ?_
        rintro _ _ ⟨⟩
        rfl

end Follower

theorem apart_tokens (source : String) : Apart .markup (((tokens source).map Token.kind).flatMap TokenKind.visible) := by
  have stage : Content.IsStage .markup := trivial
  exact Follower.apart_run stage (fun _ _ h => by cases h) (lawfulEvents_events source.toList)

/-! ### Trees -/

theorem isNamed_of_lawful {content : Content} {e : Element} {children : List Node}
    (h : Lawful content (Node.element e children).kinds) : content = .markup ∧ e.IsNamed := by
  have start : ∃ selfClosing, (TokenKind.startTag e.name e.attrs selfClosing).Fits content := by
    rw [Node.kinds] at h
    cases hc : e.closing <;> rw [hc] at h <;> exact ⟨_, h.1⟩
  obtain ⟨selfClosing, hstart⟩ := start
  cases content with
  | markup =>
    obtain ⟨hname, hattrs, hnodup⟩ := hstart
    exact ⟨rfl, hname.isElementName, fun a ha => (hattrs a ha).isAttributeName, hnodup⟩
  | plain n => exact hstart.elim
  | script n part => exact hstart.elim

theorem children_of_script {n : List Char} {part : ScriptPart} {ns : List Node} (hl : Lawful (.script n part) (kinds ns))
    (ha : Apart (.script n part) (kinds ns)) : ns = [] ∨ ∃ s, s ≠ "" ∧ ns = [.text s] := by
  have noElement : ∀ {e : Element} {children ns : List Node},
      ¬ Lawful (.script n part) (kinds (.element e children :: ns)) := by
    intro e children ns h
    cases (isNamed_of_lawful (lawful_append.1 h).1).1
  cases ns with
  | nil => exact .inl rfl
  | cons first ns =>
    cases first with
    | element e children => exact absurd hl noElement
    | text s =>
      obtain ⟨⟨hne, hnext⟩, -⟩ := ha
      cases ns with
      | nil => exact .inr ⟨s, hne, rfl⟩
      | cons second ns =>
        cases second with
        | element e children => exact absurd hl.2 noElement
        | text t => cases hnext rfl (.text t) rfl

/-- The children of an element with an end tag stand in the content that its start tag begins. -/
theorem inner_of_endTag {e : Element} (hc : e.closing = .endTag) (children : List Node) :
    (Lawful .markup (Node.element e children).kinds → Lawful (.ofStartTag e.name.toList false) (kinds children)) ∧
      (Apart .markup (Node.element e children).kinds → Apart (.ofStartTag e.name.toList false) (kinds children)) := by
  rw [Node.kinds, hc]
  exact ⟨fun h => (lawful_append.1 h.2).1, fun h => (apart_append h.2).1⟩

theorem ofStartTag_of_isScript {e : Element} (h : e.IsScript) :
    Content.ofStartTag e.name.toList false = .script e.name.toList .code := by
  have raw : e.name.toList = "script".toList ∨ e.name.toList = "style".toList := by
    simpa only [String.toList_inj] using h.2
  rw [Content.ofStartTag, if_neg (by simp), if_pos raw]

theorem isScript_of_not_isScript {e : Element} (hc : e.closing = .endTag) (h : ¬ e.IsScript) :
    (Content.ofStartTag e.name.toList false).isScript = false := by
  rw [isScript_ofStartTag]
  simp only [String.toList_inj]
  simpa [Element.IsScript, hc] using h

/-- Nodes whose kinds may stand in a content other than a script, with their texts apart, are well-formed. -/
theorem wellFormed_of_lawful {content : Content} (hcontent : content.isScript = false) {ns : List Node}
    (hb : Balanced ns) (hl : Lawful content (kinds ns)) (ha : Apart content (kinds ns)) : WellFormed ns := by
  induction ns using nodes_induction generalizing content with
  | nil => trivial
  | text s ns ih =>
    obtain ⟨hfits, hl⟩ := hl
    obtain ⟨⟨hne, -⟩, ha⟩ := ha
    have hescaped : ∃ t, s.toList = escaped t := by
      cases content with
      | script n part => cases hcontent
      | _ => exact hfits
    obtain ⟨t, ht⟩ := hescaped
    refine ⟨⟨hne, ?_⟩, ih hcontent hb.2 hl ha⟩
    rw [ht]
    exact isEscaped_escaped t
  | element e children ns ihc ih =>
    obtain ⟨⟨hdistinct, hclosed, hchildren⟩, hns⟩ := hb
    obtain ⟨hl, hlrest⟩ := lawful_append.1 hl
    obtain ⟨ha, harest⟩ := apart_append ha
    obtain ⟨rfl, hnamed⟩ := isNamed_of_lawful hl
    have after : Content.last .markup (Node.element e children).kinds = .markup := by
      have whole : Balanced [.element e children] := ⟨⟨hdistinct, hclosed, hchildren⟩, trivial⟩
      simpa [kinds] using last_kinds whole
    rw [after] at hlrest harest
    refine ⟨⟨hnamed, hclosed, fun hscript => ?_, fun hscript => ?_⟩, ih rfl hns hlrest harest⟩
    · have inner := inner_of_endTag hscript.1 children
      rw [ofStartTag_of_isScript hscript] at inner
      exact children_of_script (inner.1 hl) (inner.2 ha)
    · by_cases hend : e.closing = .endTag
      · have inner := inner_of_endTag hend children
        exact ihc (isScript_of_not_isScript hend hscript) hchildren (inner.1 hl) (inner.2 ha)
      · rw [hclosed.childless hend]
        trivial

/-- Every tree that is read from a source is well-formed, whatever the source. -/
theorem wellFormed_parse {source : String} {d : Document} (h : (Document.parse source).result = .ok d) :
    WellFormed d := by
  obtain ⟨hkinds, hlawful, hbalanced⟩ := lawful_parse h
  exact wellFormed_of_lawful rfl hbalanced hlawful (hkinds ▸ apart_tokens source)

/-- A paragraph with a void element and a style, in which only what the style holds is left as it is written. -/
theorem wellFormed_parse_paragraph :
    ∃ d, (Document.parse "<P Hidden>1<2 & 3<br><style>a<b</style></p>").result = .ok d ∧
      kinds d = [.startTag "p" [("hidden", none)] false, .text "1&lt;2 &amp; 3", .startTag "br" [] false,
        .startTag "style" [] false, .text "a<b", .endTag "style", .endTag "p"] ∧ WellFormed d := by
  have read : (Document.parse "<P Hidden>1<2 & 3<br><style>a<b</style></p>").result.toOption.map kinds =
      some [.startTag "p" [("hidden", none)] false, .text "1&lt;2 &amp; 3", .startTag "br" [] false,
        .startTag "style" [] false, .text "a<b", .endTag "style", .endTag "p"] := by
    decide +kernel
  cases h : (Document.parse "<P Hidden>1<2 & 3<br><style>a<b</style></p>").result with
  | error e =>
    rw [h] at read
    cases read
  | ok d =>
    rw [h] at read
    exact ⟨d, rfl, Option.some.inj read, wellFormed_parse h⟩

end Stencil.Markup
