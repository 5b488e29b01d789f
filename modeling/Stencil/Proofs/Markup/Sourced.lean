import Stencil.Proofs.Markup.Lawful
import Stencil.Proofs.Markup.TagProgress

/-! Every tree that is read from a source is lawful, whatever the source. The events of a source are, as each step of the
reader keeps what its state says of the content, and the follower keeps it of their tokens. -/

namespace Stencil.Markup

/-! ### Declared order -/

theorem mem_inDeclaredOrder {α : Type} [BEq α] [LawfulBEq α] {values : List (α × List Char)} {order : List (α × Bool)}
    {n : α} {v : Option (List Char)} (h : (n, v) ∈ inDeclaredOrder values order) :
    ∃ w, (n, w) ∈ values ∧ ∀ u ∈ v, u = w := by
  induction order generalizing values with
  | nil =>
    obtain ⟨⟨m, w⟩, hmem, heq⟩ := List.mem_map.1 h
    obtain ⟨rfl, rfl⟩ := Prod.mk.inj heq
    exact ⟨w, hmem, by rintro u ⟨⟩; rfl⟩
  | cons a order ih =>
    obtain ⟨m, hasValue⟩ := a
    unfold inDeclaredOrder at h
    cases hl : values.lookup m with
    | none => exact ih (by simpa [hl] using h)
    | some w =>
      simp only [hl, List.mem_cons] at h
      rcases h with h | h
      · obtain ⟨rfl, rfl⟩ := Prod.mk.inj h
        obtain ⟨before, after, rfl, -⟩ := List.lookup_eq_some_iff.1 hl
        exact ⟨w, by simp, by cases hasValue <;> simp⟩
      · obtain ⟨w', hmem, hw'⟩ := ih h
        exact ⟨w', (List.mem_filter.1 hmem).1, hw'⟩

theorem nodup_inDeclaredOrder {α : Type} [BEq α] [LawfulBEq α] {values : List (α × List Char)}
    (h : (values.map Prod.fst).Nodup) (order : List (α × Bool)) :
    ((inDeclaredOrder values order).map Prod.fst).Nodup := by
  induction order generalizing values with
  | nil => simpa [inDeclaredOrder, Function.comp_def] using h
  | cons a order ih =>
    obtain ⟨m, hasValue⟩ := a
    unfold inDeclaredOrder
    cases hl : values.lookup m with
    | none => exact ih h
    | some w =>
      simp only [List.map_cons, List.nodup_cons]
      refine ⟨fun hm => ?_, ih (h.sublist (List.filter_sublist.map _))⟩
      obtain ⟨⟨m', v⟩, hmem, rfl⟩ := List.mem_map.1 hm
      obtain ⟨w', hw', -⟩ := mem_inDeclaredOrder hmem
      simpa using (List.mem_filter.1 hw').2

theorem lookup_of_nodup {values : List (List Char × List Char)} (hnodup : (values.map Prod.fst).Nodup)
    {a : List Char × List Char} (ha : a ∈ values) : values.lookup a.1 = some a.2 := by
  induction values with
  | nil => cases ha
  | cons b values ih =>
    obtain ⟨n, v⟩ := b
    rw [List.map_cons, List.nodup_cons] at hnodup
    rcases List.mem_cons.1 ha with rfl | ha
    · simp
    · have hne : (a.1 == n) = false := by
        simpa using fun heq : a.1 = n => hnodup.1 (List.mem_map.2 ⟨a, ha, heq⟩)
      rw [List.lookup_cons, hne]
      exact ih hnodup.2 ha

theorem mem_sortAttrs {attrs : List (List Char × List Char)} {a : List Char × List Char} :
    a ∈ Follower.sortAttrs attrs ↔ a ∈ attrs := List.mem_mergeSort

theorem mem_ordered {attrs : List (List Char × List Char)} {order : List Declared} {a : String × Option String}
    (h : a ∈ ordered attrs order) : ∃ b ∈ attrs, a.1 = String.ofList b.1 ∧ ∀ v ∈ a.2, v = String.ofList b.2 := by
  obtain ⟨⟨n, v⟩, hmem, rfl⟩ := List.mem_map.1 h
  obtain ⟨w, hw, hv⟩ := mem_inDeclaredOrder hmem
  refine ⟨(n, w), mem_sortAttrs.1 hw, rfl, fun u hu => ?_⟩
  obtain ⟨u', hu', rfl⟩ := Option.map_eq_some_iff.1 hu
  rw [hv u' hu']

theorem nodup_ordered {attrs : List (List Char × List Char)} (h : (attrs.map Prod.fst).Nodup)
    (order : List Declared) : ((ordered attrs order).map Prod.fst).Nodup := by
  have sorted : ((Follower.sortAttrs attrs).map Prod.fst).Nodup :=
    (((List.mergeSort_perm attrs _).map Prod.fst).nodup_iff).2 h
  have names : (ordered attrs order).map Prod.fst =
      ((inDeclaredOrder (Follower.sortAttrs attrs) order).map Prod.fst).map String.ofList := by
    simp [ordered]
  rw [names]
  exact List.Pairwise.map String.ofList (fun _ _ hne he => hne (String.ofList_inj.1 he))
    (nodup_inDeclaredOrder sorted order)

/-! ### Events -/

/-- The name of an element with plain or raw text. -/
structure IsRawName (n : List Char) : Prop where
  notEmpty : n ≠ []
  letters : ∀ c ∈ n, c.isAlpha
  small : ∀ c ∈ n, c.toLower = c
  notVoid : isVoid (String.ofList n) = false

/-- The contents that start tags begin, and markup. -/
def Content.IsStage : Content → Prop
  | .markup => True
  | .plain n => IsRawName n
  | .script n part => IsRawName n ∧ part = .code

theorem isStage_ofStartTag (name : List Char) (selfClosing : Bool) : (Content.ofStartTag name selfClosing).IsStage := by
  have raw : ∀ n ∈ ["script", "style", "textarea", "title"], IsRawName n.toList := by
    intro n hn
    simp only [List.mem_cons, List.not_mem_nil, or_false] at hn
    rcases hn with rfl | rfl | rfl | rfl <;> exact
      ⟨by decide, forall_mem_of_all (by decide), forall_mem_of_all (by decide), by decide +kernel⟩
  unfold Content.ofStartTag
  split
  · trivial
  · split
    · next h => exact ⟨by rcases h with rfl | rfl <;> exact raw _ (by simp), rfl⟩
    · split
      · next h =>
        change IsRawName name
        rcases h with rfl | rfl <;> exact raw _ (by simp)
      · trivial

theorem isNameChar_of_isAlpha {c : Char} (ha : c.isAlpha) (hc : c.toLower = c) : IsNameChar c := by
  have other : ∀ d : Char, d.isAlpha = false → c ≠ d := by
    rintro d hd rfl
    rw [ha] at hd
    cases hd
  refine ⟨?_, ?_, other _ (by decide), other _ (by decide), other _ (by decide)⟩
  · rw [nameChar, hc]
    exact if_neg (other _ (by decide))
  · simp [isSpace, other ' ' (by decide), other '\t' (by decide), other '\n' (by decide), other '\x0c' (by decide)]

theorem IsRawName.isTagName {n : List Char} (h : IsRawName n) : IsTagName n where
  head := by
    obtain ⟨c, cs, rfl⟩ := List.exists_cons_of_ne_nil h.notEmpty
    exact ⟨c, cs, rfl, h.letters c List.mem_cons_self⟩
  chars c hc := isNameChar_of_isAlpha (h.letters c hc) (h.small c hc)

/-- An event may stand in a content. -/
def Event.Fits : Content → Event → Prop
  | _, .text _ => True
  | .markup, .startTag _ name attrs _ =>
    IsTagName name ∧ (∀ a ∈ attrs, IsAttrName a.1) ∧ (attrs.map Prod.fst).Nodup
  | content, .endTag _ name => IsTagName name ∧ (content = .markup ∨ name = content.name)
  | .markup, .declaration => True
  | _, _ => False

def Content.afterEvent : Content → Event → Content
  | _, .startTag _ name _ selfClosing => .ofStartTag name selfClosing
  | _, .endTag .. => .markup
  | content, _ => content

def Content.afterEvents (content : Content) (es : List Event) : Content := es.foldl afterEvent content

/-- Each event may stand where it stands. -/
def LawfulEvents : Content → List Event → Prop
  | _, [] => True
  | content, e :: es => e.Fits content ∧ LawfulEvents (content.afterEvent e) es

theorem lawfulEvents_append {content : Content} {es es' : List Event} (h : LawfulEvents content es)
    (h' : LawfulEvents (content.afterEvents es) es') : LawfulEvents content (es ++ es') := by
  induction es generalizing content with
  | nil => exact h'
  | cons e es ih => exact ⟨h.1, ih h.2 h'⟩

theorem lawfulEvents_texts (content : Content) (cs : List Char) : LawfulEvents content (texts cs) := by
  induction cs with
  | nil => trivial
  | cons c cs ih => exact ⟨by cases content <;> trivial, ih⟩

theorem afterEvents_texts (content : Content) (cs : List Char) : content.afterEvents (texts cs) = content := by
  induction cs with
  | nil => rfl
  | cons c cs ih => exact ih

theorem Content.IsStage.afterEvent {content : Content} (h : content.IsStage) (e : Event) :
    (content.afterEvent e).IsStage := by
  cases e with
  | startTag place name attrs selfClosing => exact isStage_ofStartTag name selfClosing
  | endTag place name => trivial
  | _ => exact h

/-! ### What a state says of the content -/

def Content.stage : Content → Content
  | .script name _ => .script name .code
  | content => content

/-- What a tag has while it is read in a content: names that are names, and outside of markup the name of the end tag. -/
structure GoodTag (content : Content) (u : OpenTag × TagPart) : Prop where
  name : IsTagName u.1.name
  attrs : ∀ a ∈ u.1.attrs, IsAttrName a.1
  nodup : (u.1.attrs.map Prod.fst).Nodup
  current : ∀ n, (u.2 = .attr n ∨ ∃ w, u.2 = .value n w) → IsAttrName n
  place : content = .markup ∨ (u.1.isEnd ∧ u.1.name = content.name ∧ u.2 ≠ .name)

theorem OpenTag.addAttr_isEnd (tag : OpenTag) (n w : List Char) : (tag.addAttr n w).isEnd = tag.isEnd := by
  unfold addAttr
  split <;> rfl

theorem OpenTag.addAttr_name (tag : OpenTag) (n w : List Char) : (tag.addAttr n w).name = tag.name := by
  unfold addAttr
  split <;> rfl

theorem OpenTag.mem_addAttr {tag : OpenTag} {n w : List Char} {a : List Char × List Char}
    (h : a ∈ (tag.addAttr n w).attrs) : a ∈ tag.attrs ∨ a = (n, w) := by
  unfold addAttr at h
  split at h
  · exact .inl h
  · simpa using h

theorem OpenTag.nodup_addAttr {tag : OpenTag} (h : (tag.attrs.map Prod.fst).Nodup) (n w : List Char) :
    ((tag.addAttr n w).attrs.map Prod.fst).Nodup := by
  unfold addAttr
  split
  · exact h
  · next hn =>
    rw [List.map_append, List.nodup_append]
    refine ⟨h, by simp, fun a ha b hb => ?_⟩
    rintro rfl
    obtain rfl : a = n := List.mem_singleton.1 hb
    exact hn ha

theorem GoodTag.add {content : Content} {tag : OpenTag} {part : TagPart} {n : List Char} (h : GoodTag content (tag, part))
    (hn : part = .attr n ∨ ∃ w, part = .value n w) (w : List Char) : GoodTag content (tag.addAttr n w, .between) where
  name := by rw [OpenTag.addAttr_name]; exact h.name
  attrs a ha := by
    rcases OpenTag.mem_addAttr ha with ha | rfl
    · exact h.attrs a ha
    · exact h.current n hn
  nodup := OpenTag.nodup_addAttr h.nodup n w
  current m hm := by simp at hm
  place := by
    rw [OpenTag.addAttr_isEnd, OpenTag.addAttr_name]
    exact h.place.imp id fun hp => ⟨hp.1, hp.2.1, nofun⟩

theorem goodTag_move {content : Content} {u v : OpenTag × TagPart} (h : TagMove u v) (hu : GoodTag content u) :
    GoodTag content v := by
  obtain ⟨hname, hattrs, hnodup, hcurrent, hplace⟩ := hu
  have other : ∀ part : TagPart, part ≠ .name →
      (content = .markup ∨ (u.1.isEnd ∧ u.1.name = content.name ∧ part ≠ .name)) :=
    fun part hpart => hplace.imp id fun hp => ⟨hp.1, hp.2.1, hpart⟩
  cases h with
  | named tag => exact ⟨hname, hattrs, hnodup, by simp, other _ nofun⟩
  | nameChar tag c hc =>
    exact ⟨hname.snoc hc, hattrs, hnodup, by simp, hplace.imp id fun hp => absurd rfl hp.2.2⟩
  | attr tag c hc =>
    refine ⟨hname, hattrs, hnodup, ?_, other _ nofun⟩
    rintro n (hn | ⟨w, hw⟩)
    · obtain rfl := TagPart.attr.inj hn
      exact isAttrName_singleton hc
    · cases hw
  | attrChar tag n c hc heq =>
    refine ⟨hname, hattrs, hnodup, ?_, other _ nofun⟩
    rintro m (hm | ⟨w, hw⟩)
    · obtain rfl := TagPart.attr.inj hm
      exact (hcurrent n (.inl rfl)).snoc hc heq
    · cases hw
  | bare tag n => exact GoodTag.add ⟨hname, hattrs, hnodup, hcurrent, hplace⟩ (.inl rfl) []
  | value tag n =>
    refine ⟨hname, hattrs, hnodup, ?_, other _ nofun⟩
    rintro m (hm | ⟨w, hw⟩)
    · cases hm
    · obtain ⟨rfl, -⟩ := TagPart.value.inj hw
      exact hcurrent n (.inl rfl)
  | valueChars tag n w cs =>
    refine ⟨hname, hattrs, hnodup, ?_, other _ nofun⟩
    rintro m (hm | ⟨w', hw⟩)
    · cases hm
    · obtain ⟨rfl, -⟩ := TagPart.value.inj hw
      exact hcurrent n (.inr ⟨w, rfl⟩)
  | valued tag n w => exact GoodTag.add ⟨hname, hattrs, hnodup, hcurrent, hplace⟩ (.inr ⟨w, rfl⟩) w

/-- A state agrees with the content that the events before it leave. -/
def State.Agrees (content : Content) : State → Prop
  | text here _ => here.stage = content
  | endLess here _ | endName here _ _ => here.stage = content ∧ content ≠ .markup
  | less _ | lessSlash _ | declaration _ => content = .markup
  | s => ∃ u, s.inTag? = some u ∧ GoodTag content u

def StepFits (content : Content) (r : Step) : Prop :=
  LawfulEvents content r.2 ∧ r.1.Agrees (content.afterEvents r.2)

theorem stepFits_silent {content : Content} {s : State} (h : s.Agrees content) : StepFits content (s, []) := ⟨trivial, h⟩

theorem StepFits.afterTexts {content : Content} {r : Step} (h : StepFits content r) (cs : List Char) :
    StepFits content (r.1, texts cs ++ r.2) := by
  have after := afterEvents_texts content cs
  refine ⟨lawfulEvents_append (lawfulEvents_texts content cs) (after.symm ▸ h.1), ?_⟩
  change r.1.Agrees (Content.afterEvents content (texts cs ++ r.2))
  rw [Content.afterEvents, List.foldl_append, ← Content.afterEvents, ← Content.afterEvents, after]
  exact h.2

theorem stepFits_text {content here : Content} (h : here.stage = content) (c : Char) :
    StepFits content (.text here none, [.text c]) :=
  StepFits.afterTexts (stepFits_silent (s := .text here none) h) [c]

theorem stepFits_close {content : Content} {tag : OpenTag} (h : GoodTag content (tag, .between)) (selfClosing : Bool) :
    StepFits content (tag.close selfClosing) := by
  unfold OpenTag.close
  split
  · next hend =>
    refine ⟨⟨⟨h.name, h.place.imp id fun hp => hp.2.1⟩, trivial⟩, rfl⟩
  · next hend =>
    obtain rfl : content = .markup := h.place.resolve_right fun hp => hend hp.1
    refine ⟨⟨⟨h.name, h.attrs, h.nodup⟩, trivial⟩, ?_⟩
    change (Content.ofStartTag tag.name selfClosing).stage = _
    have stage : ∀ content : Content, content.IsStage → content.stage = content := by
      rintro (_ | n | ⟨n, part⟩) hc
      · rfl
      · rfl
      · obtain ⟨-, rfl⟩ := hc
        rfl
    exact stage _ (isStage_ofStartTag _ _)

theorem agrees_inTag {content : Content} {s : State} {u : OpenTag × TagPart} (hs : s.inTag? = some u)
    (hu : GoodTag content u) : s.Agrees content := by
  cases s with
  | text | less | lessSlash | declaration | endLess | endName => cases hs
  | _ => exact ⟨u, hs, hu⟩

theorem stepFits_inTag {content : Content} {s : State} {u : OpenTag × TagPart} (hs : s.inTag? = some u)
    (hu : GoodTag content u) {c : Char} (hc : c ≠ '\r') (p : Nat) : StepFits content (s.step p c) := by
  have keeps : ∀ v, TagMoves u v → GoodTag content v := fun v hv => hv.keeps (fun _ _ => goodTag_move) hu
  rcases step_inTag hs hc p with ⟨v, hv, hv', hes⟩ | ⟨tag, selfClosing, hv, hr⟩
  · rw [show s.step p c = ((s.step p c).1, []) from Prod.ext rfl hes]
    exact stepFits_silent (agrees_inTag hv' (keeps v hv))
  · rw [hr]
    exact stepFits_close (keeps _ hv) selfClosing

theorem stepFits_textStep {content here : Content} (h : here.stage = content) (p : Nat) (c : Char) :
    StepFits content (textStep p here c) := by
  cases here with
  | markup =>
    simp only [textStep]
    split
    · exact stepFits_silent h.symm
    · split
      · exact stepFits_silent h
      · exact stepFits_text h c
  | plain n =>
    simp only [textStep]
    split
    · exact stepFits_silent ⟨h, by rintro rfl; cases h⟩
    · split
      · exact stepFits_silent h
      · exact stepFits_text h _
  | script n part =>
    simp only [textStep]
    split
    · exact stepFits_silent ⟨h, by rintro rfl; cases h⟩
    · exact stepFits_text (show Content.stage (.script n (part.step c)) = content from h) _

theorem isTagName_letter {c : Char} (h : c.isAlpha) : IsTagName [c.toLower] where
  head := ⟨c.toLower, [], rfl, Text.isAlpha_toLower h⟩
  chars d hd := by
    obtain rfl := List.mem_singleton.1 hd
    exact isNameChar_of_isAlpha (Text.isAlpha_toLower h) (Text.toLower_toLower c)

theorem goodTag_opened {c : Char} (h : c.isAlpha) (start : Nat) (isEnd : Bool) :
    GoodTag .markup (⟨start, isEnd, [c.toLower], []⟩, .name) :=
  ⟨isTagName_letter h, by simp, by simp, by simp, .inl rfl⟩

theorem stepFits_lessStep (p start : Nat) (c : Char) : StepFits .markup (lessStep p start c) := by
  unfold lessStep
  split
  · exact stepFits_silent rfl
  · split
    · exact stepFits_silent rfl
    · split
      · exact stepFits_silent rfl
      · split
        · next ha => exact stepFits_silent ⟨_, rfl, goodTag_opened ha start false⟩
        · exact (stepFits_textStep (rfl : Content.stage .markup = .markup) p c).afterTexts ['<']

theorem stepFits_lessSlash (p start : Nat) (c : Char) : StepFits .markup (State.step p (.lessSlash start) c) := by
  rw [State.step]
  split
  · next ha => exact stepFits_silent ⟨_, rfl, goodTag_opened ha start true⟩
  · split
    · exact stepFits_silent rfl
    · exact stepFits_silent rfl

theorem stepFits_declaration (p : Nat) (part : DeclarationPart) (c : Char) :
    StepFits .markup (State.step p (.declaration part) c) := by
  rw [State.step]
  split
  · exact stepFits_silent rfl
  · exact ⟨⟨trivial, trivial⟩, rfl⟩

theorem stepFits_endLessStep {content here : Content} (h : here.stage = content) (hne : content ≠ .markup)
    (p start : Nat) (c : Char) : StepFits content (endLessStep p here start c) := by
  unfold endLessStep
  split
  · exact stepFits_silent ⟨h, hne⟩
  · cases here with
    | markup => exact absurd h.symm hne
    | plain n => exact (stepFits_textStep h p c).afterTexts ['<']
    | script n part =>
      have after : ∀ part', StepFits content
          ((textStep p (.script n part') c).1, texts ['<'] ++ (textStep p (.script n part') c).2) :=
        fun part' => (stepFits_textStep (show Content.stage (.script n part') = content from h) p c).afterTexts ['<']
      simp only [scriptLess]
      split
      · split
        · exact StepFits.afterTexts (stepFits_silent (s := .text (.script n .bang) none) h) ['<', '!']
        · exact after .code
      · exact after _

theorem Content.IsStage.isRawName {content : Content} (h : content.IsStage) (hne : content ≠ .markup) :
    IsRawName content.name := by
  cases content with
  | markup => exact absurd rfl hne
  | plain n => exact h
  | script n part => exact h.1

theorem name_stage (here : Content) : here.stage.name = here.name := by cases here <;> rfl

theorem stepFits_endNameStep {content here : Content} (hstage : content.IsStage) (h : here.stage = content)
    (hne : content ≠ .markup) (p start : Nat) (letters : List Char) (c : Char) :
    StepFits content (endNameStep p here start letters c) := by
  have name : here.name = content.name := by rw [← h, name_stage]
  have good : GoodTag content (⟨start, true, here.name, []⟩, .between) := by
    refine ⟨?_, by simp, by simp, by simp, .inr ⟨rfl, name, nofun⟩⟩
    rw [name]
    exact (hstage.isRawName hne).isTagName
  unfold endNameStep
  split
  · exact stepFits_silent ⟨h, hne⟩
  · simp only []
    split
    · exact stepFits_silent ⟨_, rfl, good⟩
    · split
      · exact stepFits_silent ⟨_, rfl, good⟩
      · split
        · exact stepFits_close good false
        · exact (stepFits_textStep h p c).afterTexts _

/-- Every step keeps to the content. -/
theorem stepFits {content : Content} (hstage : content.IsStage) {s : State} (h : s.Agrees content) {c : Char}
    (hc : c ≠ '\r') (p : Nat) : StepFits content (s.step p c) := by
  cases s with
  | text here r =>
    cases r with
    | none => exact stepFits_textStep h p c
    | some r =>
      rw [State.step]
      split
      · exact stepFits_silent h
      · next cs _ => simpa using StepFits.afterTexts (stepFits_silent (s := .text here none) h) cs
      · next cs _ => exact (stepFits_textStep h p c).afterTexts cs
  | less start =>
    obtain rfl : content = .markup := h
    exact stepFits_lessStep p start c
  | lessSlash start =>
    obtain rfl : content = .markup := h
    exact stepFits_lessSlash p start c
  | declaration part =>
    obtain rfl : content = .markup := h
    exact stepFits_declaration p part c
  | endLess here start => exact stepFits_endLessStep h.1 h.2 p start c
  | endName here start letters => exact stepFits_endNameStep hstage h.1 h.2 p start letters c
  | _ =>
    obtain ⟨u, hs, hu⟩ := h
    exact stepFits_inTag hs hu hc p

theorem Content.IsStage.afterEvents {content : Content} (h : content.IsStage) (es : List Event) :
    (content.afterEvents es).IsStage := by
  induction es generalizing content with
  | nil => exact h
  | cons e es ih => exact ih (h.afterEvent e)

theorem lawfulEvents_finish {content : Content} {s : State} (h : s.Agrees content) : LawfulEvents content s.finish := by
  cases s with
  | text here r =>
    cases r with
    | none => trivial
    | some r => exact lawfulEvents_texts content _
  | less start => exact lawfulEvents_texts content _
  | lessSlash start => exact lawfulEvents_texts content _
  | declaration part =>
    obtain rfl : content = .markup := h
    exact ⟨trivial, trivial⟩
  | endLess here start => exact lawfulEvents_texts content _
  | endName here start letters => exact lawfulEvents_texts content _
  | _ => trivial

/-- A reader goes on with a step of its state, or passes over the newline of a carriage return. -/
theorem Reader.step_cases (r : Reader) (c : Char) :
    r.step c = (⟨r.state, r.place + 1, false⟩, []) ∨
      ∃ d, d ≠ '\r' ∧ r.step c = (⟨(r.state.step r.place d).1, r.place + 1, c = '\r'⟩, (r.state.step r.place d).2) := by
  unfold step
  split
  · exact .inl rfl
  · refine .inr ⟨if c = '\r' then '\n' else c, ?_, rfl⟩
    split
    · decide
    · assumption

/-- The events of a run, and of its end, may stand where they stand. -/
theorem lawfulEvents_run {content : Content} (hstage : content.IsStage) {r : Reader} (h : r.state.Agrees content)
    (cs : List Char) : LawfulEvents content ((r.run cs).2 ++ (r.run cs).1.state.finish) := by
  induction cs generalizing content r with
  | nil => exact lawfulEvents_finish h
  | cons c cs ih =>
    simp only [Reader.run, List.append_assoc]
    rcases r.step_cases c with hstep | ⟨d, hd, hstep⟩
    · rw [hstep]
      exact ih hstage h
    · obtain ⟨hes, hagrees⟩ := stepFits hstage h hd r.place
      rw [hstep]
      exact lawfulEvents_append hes (ih (hstage.afterEvents _) hagrees)

theorem lawfulEvents_events (source : List Char) : LawfulEvents .markup (events source) :=
  have stage : Content.IsStage .markup := trivial
  lawfulEvents_run stage (r := .start) rfl source

/-! ### Tokens -/

def Content.isScript : Content → Bool
  | .script .. => true
  | _ => false

/-- The follower knows whether a script is open, and what it gathers may stand in the content. -/
structure Follower.Agrees (content : Content) (f : Follower) : Prop where
  inScript : f.inScript = content.isScript
  pending : ∀ k ∈ f.pending, k.Fits content

theorem isScript_ofStartTag (name : List Char) (selfClosing : Bool) :
    (Content.ofStartTag name selfClosing).isScript =
      (!selfClosing && (name = "script".toList || name = "style".toList)) := by
  cases selfClosing with
  | true => rfl
  | false =>
    have raw : (!false && (decide (name = "script".toList) || decide (name = "style".toList))) =
        decide (name = "script".toList ∨ name = "style".toList) := (Bool.decide_or _ _).symm
    rw [raw, Content.ofStartTag, if_neg Bool.false_ne_true]
    by_cases hraw : name = "script".toList ∨ name = "style".toList
    · rw [if_pos hraw, decide_eq_true hraw]
      rfl
    · rw [if_neg hraw, decide_eq_false hraw]
      split <;> rfl

namespace Follower

theorem agrees_addText {content : Content} {f : Follower} (h : f.Agrees content) (c : Char) :
    (f.step (.text c)).1.Agrees content := by
  have new : (TokenKind.text (if f.inScript then c.toString else escape c)).Fits content := by
    rw [h.inScript]
    cases content with
    | script n part => trivial
    | _ => exact ⟨[c], by simp [escaped, Content.isScript]⟩
  cases hg : f.gathered with
  | none =>
    refine ⟨by simpa [step, addText, hg] using h.inScript, fun k hk => ?_⟩
    obtain rfl : k = _ := by simpa [step, addText, hg, pending, flush] using hk
    exact new
  | some gathered =>
    obtain ⟨p, s⟩ := gathered
    have old : (TokenKind.text s).Fits content := h.pending _ (by simp [pending, flush, hg])
    refine ⟨by simpa [step, addText, hg] using h.inScript, fun k hk => ?_⟩
    obtain rfl : k = _ := by simpa [step, addText, hg, pending, flush] using hk
    exact fits_append old new

theorem lawful_pending {content : Content} {f : Follower} (h : f.Agrees content) {ks : List TokenKind}
    (hks : Lawful content ks) : Lawful content (f.pending.flatMap TokenKind.visible ++ ks) := by
  have fits := h.pending
  unfold pending flush at fits ⊢
  cases hg : f.gathered with
  | none => exact hks
  | some gathered => exact ⟨fits (.text gathered.2) (by simp [hg]), hks⟩

theorem agrees_startTag {f : Follower} (h : f.Agrees .markup) (place : Nat) (name : List Char)
    (attrs : List (List Char × List Char)) (selfClosing : Bool) :
    (f.step (.startTag place name attrs selfClosing)).1.Agrees (.ofStartTag name selfClosing) := by
  refine ⟨?_, fun k hk => by cases hk⟩
  rw [isScript_ofStartTag]
  refine (congrArg Trail.inScript (f.trail_step (.startTag place name attrs selfClosing))).trans ?_
  simp [Trail.after, trail, show f.inScript = false from h.inScript]

theorem agrees_endTag (f : Follower) (place : Nat) (name : List Char) :
    (f.step (.endTag place name)).1.Agrees .markup :=
  ⟨congrArg Trail.inScript (f.trail_step (.endTag place name)), fun k hk => by cases hk⟩

theorem fits_startTag {place : Nat} {name : List Char} {attrs : List (List Char × List Char)} {selfClosing : Bool}
    (h : (Event.startTag place name attrs selfClosing).Fits .markup) (order : List Declared) :
    (TokenKind.startTag (String.ofList name) (ordered attrs order) selfClosing).Fits .markup := by
  obtain ⟨hname, hattrs, hnodup⟩ := h
  refine ⟨by simpa using hname, fun a ha => ?_, nodup_ordered hnodup order⟩
  obtain ⟨b, hb, hfirst, -⟩ := mem_ordered ha
  rw [hfirst, String.toList_ofList]
  exact hattrs b hb

theorem fits_endTag {content : Content} {place : Nat} {name : List Char} (h : (Event.endTag place name).Fits content) :
    IsTagName name ∧ (content = .markup ∨ name = content.name) := by
  cases content <;> exact h

theorem markup_of_isVoid {content : Content} (hstage : content.IsStage) {place : Nat} {name : List Char}
    (h : (Event.endTag place name).Fits content) (hvoid : isVoid (String.ofList name)) : content = .markup := by
  rcases (fits_endTag h).2 with rfl | rfl
  · rfl
  · apply Classical.byContradiction
    intro hne
    rw [(hstage.isRawName hne).notVoid] at hvoid
    cases hvoid

theorem lawful_endTag {content : Content} (hstage : content.IsStage) {place : Nat} {name : List Char}
    (h : (Event.endTag place name).Fits content) {ks : List TokenKind} (hks : Lawful .markup ks) :
    Lawful content (TokenKind.visible (.endTag (String.ofList name)) ++ ks) := by
  by_cases hvoid : isVoid (String.ofList name)
  · obtain rfl := markup_of_isVoid hstage h hvoid
    simpa [TokenKind.visible, hvoid] using hks
  · have fits : (TokenKind.endTag (String.ofList name)).Fits content := by
      have both : IsTagName (String.ofList name).toList ∧
          (content = .markup ∨ (String.ofList name).toList = content.name) := by
        rw [String.toList_ofList]
        exact fits_endTag h
      cases content <;> exact both
    simpa [TokenKind.visible, hvoid] using ⟨fits, hks⟩

/-- The visible kinds of the tokens of lawful events may stand where they stand. -/
theorem lawful_run {content : Content} (hstage : content.IsStage) {f : Follower} (h : f.Agrees content)
    {es : List Event} (hes : LawfulEvents content es) :
    Lawful content (((f.run es).map Token.kind).flatMap TokenKind.visible) := by
  induction es generalizing content f with
  | nil =>
    rw [run, List.map_append, List.flatMap_append]
    exact lawful_pending h trivial
  | cons e es ih =>
    obtain ⟨he, hes⟩ := hes
    rw [run, List.map_append, List.flatMap_append]
    cases e with
    | text c => exact ih hstage (agrees_addText h c) hes
    | declaration =>
      obtain ⟨cursor, hstep⟩ := step_declaration f
      rw [hstep]
      exact ih hstage ⟨h.inScript, h.pending⟩ hes
    | startTag place name attrs selfClosing =>
      cases content with
      | plain n => exact he.elim
      | script n part => exact he.elim
      | markup =>
        have later := ih (isStage_ofStartTag name selfClosing) (agrees_startTag h place name attrs selfClosing) hes
        rw [kinds_startTag, List.flatMap_append, List.append_assoc]
        refine lawful_pending h ⟨fits_startTag he _, ?_⟩
        simpa [Content.next] using later
    | endTag place name =>
      have stage : Content.IsStage .markup := trivial
      have later := ih stage (agrees_endTag f place name) hes
      rw [kinds_endTag, List.flatMap_append, List.append_assoc]
      apply lawful_pending h
      rw [List.flatMap_singleton]
      exact lawful_endTag hstage he later

end Follower

theorem Lawful.fits_mem {content : Content} {ks : List TokenKind} (h : Lawful content ks) {k : TokenKind}
    (hk : k ∈ ks) : ∃ here, k.Fits here := by
  induction ks generalizing content with
  | nil => cases hk
  | cons l ls ih =>
    rcases List.mem_cons.1 hk with rfl | hk
    · exact ⟨content, h.1⟩
    · exact ih h.2 hk

theorem lawful_tokens (source : String) :
    Lawful .markup (((tokens source).map Token.kind).flatMap TokenKind.visible) := by
  have stage : Content.IsStage .markup := trivial
  exact Follower.lawful_run stage ⟨rfl, fun k hk => by cases hk⟩ (lawfulEvents_events source.toList)

/-- The attributes of the start tags of a source have different names. -/
theorem hasDistinctAttrs_tokens (source : String) : ∀ t ∈ tokens source, t.kind.HasDistinctAttrs := by
  rintro ⟨kind, position⟩ ht
  cases kind with
  | startTag name attrs selfClosing =>
    have visible : TokenKind.startTag name attrs selfClosing ∈
        ((tokens source).map Token.kind).flatMap TokenKind.visible :=
      List.mem_flatMap.2 ⟨_, List.mem_map_of_mem ht, List.mem_singleton_self _⟩
    obtain ⟨here, hfits⟩ := (lawful_tokens source).fits_mem visible
    cases here with
    | markup => exact hfits.2.2
    | plain n => exact hfits.elim
    | script n part => exact hfits.elim
  | _ => trivial

theorem ofTokens_of_parse {source : String} {d : Document} (h : (Document.parse source).result = .ok d) :
    Document.ofTokens (tokens source) = .ok d := by
  unfold Document.parse at h
  cases ht : Document.ofTokens (tokens source) with
  | error e => rw [ht] at h; cases h
  | ok d' =>
    rw [ht] at h
    obtain rfl : d' = d := Except.ok.inj h
    rfl

/-- The tree of a source is written out to the visible tokens of that source, and is lawful and balanced. -/
theorem lawful_parse {source : String} {d : Document} (h : (Document.parse source).result = .ok d) :
    ((tokens source).map Token.kind).flatMap TokenKind.visible = kinds d ∧ Lawful .markup (kinds d) ∧ Balanced d := by
  obtain ⟨hkinds, hbalanced⟩ := kinds_of_ofTokens (hasDistinctAttrs_tokens source) (ofTokens_of_parse h)
  exact ⟨hkinds, hkinds ▸ lawful_tokens source, hbalanced⟩

end Stencil.Markup
