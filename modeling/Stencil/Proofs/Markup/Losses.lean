import Stencil.Proofs.Markup.ReadBack

/-! What is lost in printing and reading. A printed tree that is read back as it is holds nothing that is read as
something else: the reader goes through its tokens one by one, and the first that is not kept shows as another symbol. -/

namespace Stencil.Markup

def Reader.all (r : Reader) (cs : List Char) : List Event := (r.run cs).2 ++ (r.run cs).1.state.finish

theorem Reads.all {p : Nat} {s s' : State} {cs : List Char} {es : List Event} (h : Reads p s cs s' es)
    (ds : List Char) : Reader.all ⟨s, p, false⟩ (cs ++ ds) = es ++ Reader.all ⟨s', p + cs.length, false⟩ ds := by
  have run : Reader.run ⟨s, p, false⟩ cs = (⟨s', p + cs.length, false⟩, es) := h
  simp only [Reader.all, Reader.run_append, run, List.append_assoc]

/-- What the reader takes a character for where it is not passed over. -/
def newline (c : Char) : Char := if c = '\r' then '\n' else c

theorem Reader.all_cons (s : State) (p : Nat) (c : Char) (cs : List Char) :
    all ⟨s, p, false⟩ (c :: cs) =
      (s.step p (newline c)).2 ++ all ⟨(s.step p (newline c)).1, p + 1, c = '\r'⟩ cs := by
  have step : (⟨s, p, false⟩ : Reader).step c =
      (⟨(s.step p (newline c)).1, p + 1, c = '\r'⟩, (s.step p (newline c)).2) := by
    simp [Reader.step, newline]
  simp only [all, Reader.run, step, List.append_assoc]

/-! ### Visible symbols -/

/-- A symbol that shows in a tree. -/
def Symbol.visible : Symbol → Bool
  | .char _ => true
  | .tag (.endTag name) => !isVoid name
  | .tag .eof => false
  | .tag _ => true

/-- The symbols of events that show in a tree. -/
def Trail.seen (t : Trail) (es : List Event) : List Symbol := (t.trace es).filter Symbol.visible

theorem filter_chars (cs : List Char) : (chars cs).filter Symbol.visible = chars cs :=
  List.filter_eq_self.2 (by
    intro x hx
    obtain ⟨c, -, rfl⟩ := List.mem_map.1 hx
    rfl)

theorem symbols_visible (ks : List TokenKind) :
    symbols (ks.flatMap TokenKind.visible) = (symbols ks).filter Symbol.visible := by
  induction ks with
  | nil => rfl
  | cons k ks ih =>
    rw [List.flatMap_cons, Follower.symbols_append, ih, show k :: ks = [k] ++ ks from rfl, Follower.symbols_append,
      List.filter_append]
    congr 1
    cases k with
    | text s => simpa [TokenKind.visible, symbols, TokenKind.symbols] using (filter_chars s.toList).symm
    | startTag name attrs selfClosing => rfl
    | endTag name =>
      cases hvoid : isVoid name <;>
        simp [TokenKind.visible, symbols, TokenKind.symbols, Symbol.visible, hvoid]
    | eof => rfl

theorem Trail.seen_append (t : Trail) (es es' : List Event) : t.seen (es ++ es') = t.seen es ++ (t.run es).seen es' := by
  rw [seen, trace_append, List.filter_append]
  rfl

theorem Trail.seen_texts (t : Trail) (cs : List Char) : t.seen (texts cs) = chars (t.write cs) := by
  rw [seen, trace_texts, filter_chars]

theorem visible_kinds {ns : List Node} (h : Balanced ns) : ∀ k ∈ kinds ns, k.visible = [k] := by
  induction ns using nodes_induction with
  | nil => simp [kinds]
  | text s ns ih =>
    rw [kinds, Node.kinds]
    exact List.forall_mem_cons.2 ⟨rfl, ih h.2⟩
  | element e children ns ihc ih =>
    obtain ⟨⟨-, hclosed, hchildren⟩, hns⟩ := h
    have stop : e.closing = .endTag → (TokenKind.endTag e.name).visible = [.endTag e.name] := by
      intro hend
      simp [TokenKind.visible, hclosed.endTag hend]
    exact forall_kinds_element (fun _ => rfl) stop (ihc hchildren) (ih hns)

/-! ### Texts -/

/-- A character that text of a content does not keep shows as another one. -/
theorem all_lost {content : Content} (hscript : content.isScript = false) {c : Char} (hc : ¬ content.Decodes c) (p : Nat)
    (cs : List Char) :
    ∃ d es, d ≠ c ∧ escaped [d] = [d] ∧ escaped [c] = [c] ∧
      Reader.all ⟨.text content none, p, false⟩ (c :: cs) = .text d :: es := by
  cases content with
  | markup =>
    obtain rfl : c = '\r' := Classical.byContradiction hc
    exact ⟨'\n', _, by decide, by decide, by decide, Reader.all_cons _ p _ cs⟩
  | plain n =>
    by_cases hreturn : c = '\r'
    · subst hreturn
      exact ⟨'\n', _, by decide, by decide, by decide, Reader.all_cons _ p _ cs⟩
    · obtain rfl : c = '\x00' := Classical.byContradiction fun hnull => hc ⟨hreturn, hnull⟩
      exact ⟨replacement, _, by decide, by decide, by decide, Reader.all_cons _ p _ cs⟩
  | script n part => cases hscript

theorem Trail.Follows.write_eq {content : Content} {t : Trail} (ht : t.Follows content)
    (hscript : content.isScript = false) (cs : List Char) : t.write cs = escaped cs := by
  rw [Trail.write, show t.inScript = false from ht.trans hscript]
  rfl

theorem decodes_of_seen {content : Content} (hscript : content.isScript = false) {t : Trail}
    (ht : t.Follows content) {cs ds : List Char} {ss : List Symbol} {p : Nat}
    (h : t.seen (Reader.all ⟨.text content none, p, false⟩ (escaped cs ++ ds)) = chars (escaped cs) ++ ss) :
    ∀ c ∈ cs, content.Decodes c := by
  induction cs generalizing p with
  | nil => simp
  | cons c cs ih =>
    have split : ∀ rest, escaped (c :: cs) ++ rest = escaped [c] ++ (escaped cs ++ rest) := by
      intro rest
      rw [show c :: cs = [c] ++ cs from rfl, escaped_append, List.append_assoc]
    have splitChars : chars (escaped (c :: cs)) ++ ss = chars (escaped [c]) ++ (chars (escaped cs) ++ ss) := by
      rw [show c :: cs = [c] ++ cs from rfl, escaped_append, chars, List.map_append, List.append_assoc]
      rfl
    rw [split, splitChars] at h
    have hc : content.Decodes c := by
      apply Classical.byContradiction
      intro hc
      obtain ⟨d, es, hdc, hd, hcc, hall⟩ := all_lost hscript hc p (escaped cs ++ ds)
      rw [hcc, List.singleton_append, hall, show Event.text d :: es = texts [d] ++ es from rfl, Trail.seen_append,
        Trail.seen_texts, ht.write_eq hscript, hd] at h
      exact hdc (Symbol.char.inj (List.cons.inj h).1)
    have reads : Reads p (.text content none) (escaped [c]) (.text content none) (texts [c]) := by
      rw [escaped_singleton]
      exact reads_escape hc p
    rw [reads.all, Trail.seen_append, Trail.seen_texts, ht.write_eq hscript, Trail.run_texts] at h
    exact List.forall_mem_cons.2 ⟨hc, ih (List.append_cancel_left h)⟩

/-! ### Tags -/

/-- The next event after a state in a tag is that of the tag, if there is one. What all moves keep, the tag has. -/
theorem all_inTag {P : OpenTag × TagPart → Prop} (step : ∀ u v, TagMove u v → P u → P v) {r : Reader}
    {u : OpenTag × TagPart} (hr : r.state.inTag? = some u) (hu : P u) (cs : List Char) :
    r.all cs = [] ∨ ∃ tag selfClosing es, P (tag, .between) ∧ r.all cs = (OpenTag.close tag selfClosing).2 ++ es := by
  induction cs generalizing r u with
  | nil =>
    left
    cases hs : r.state with
    | text | less | lessSlash | declaration | endLess | endName => rw [hs] at hr; cases hr
    | _ => simp [Reader.all, Reader.run, hs, State.finish]
  | cons c cs ih =>
    rcases r.step_cases c with hstep | ⟨d, hd, hstep⟩
    · have all_eq : r.all (c :: cs) = Reader.all ⟨r.state, r.place + 1, false⟩ cs := by
        simp [Reader.all, Reader.run, hstep]
      rw [all_eq]
      exact ih hr hu
    · have all_eq : r.all (c :: cs) = (r.state.step r.place d).2 ++
          Reader.all ⟨(r.state.step r.place d).1, r.place + 1, c = '\r'⟩ cs := by
        simp [Reader.all, Reader.run, hstep]
      rw [all_eq]
      rcases step_inTag hr hd r.place with ⟨v, hv, hv', hes⟩ | ⟨tag, selfClosing, hv, hclose⟩
      · rw [hes, List.nil_append]
        exact ih hv' (hv.keeps step hu)
      · exact .inr ⟨tag, selfClosing, _, hv.keeps step hu, by rw [hclose]⟩

def HasValue (n w : List Char) (u : OpenTag × TagPart) : Prop :=
  u.1.isEnd = false ∧ (u.1.attrs.map Prod.fst).Nodup ∧
    ((∃ w', w <+: w' ∧ (n, w') ∈ u.1.attrs) ∨ ∃ w', w <+: w' ∧ u.2 = .value n w' ∧ n ∉ u.1.attrs.map Prod.fst)

theorem OpenTag.mem_addAttr_of_mem {tag : OpenTag} {a : List Char × List Char} (h : a ∈ tag.attrs)
    (n w : List Char) : a ∈ (tag.addAttr n w).attrs := by
  unfold addAttr
  split
  · exact h
  · exact List.mem_append_left _ h

theorem hasValue_move {n w : List Char} (u v : OpenTag × TagPart) (h : TagMove u v) (hu : HasValue n w u) :
    HasValue n w v := by
  obtain ⟨hend, hnodup, hvalue⟩ := hu
  cases h with
  | named tag => exact ⟨hend, hnodup, .inl (hvalue.resolve_right nofun)⟩
  | nameChar tag c hc => exact ⟨hend, hnodup, .inl (hvalue.resolve_right nofun)⟩
  | attr tag c hc => exact ⟨hend, hnodup, .inl (hvalue.resolve_right nofun)⟩
  | attrChar tag m c hc heq => exact ⟨hend, hnodup, .inl (hvalue.resolve_right nofun)⟩
  | value tag m => exact ⟨hend, hnodup, .inl (hvalue.resolve_right nofun)⟩
  | bare tag m =>
    obtain ⟨w', hw', hmem⟩ := hvalue.resolve_right nofun
    exact ⟨(OpenTag.addAttr_isEnd ..).trans hend, OpenTag.nodup_addAttr hnodup m [],
      .inl ⟨w', hw', OpenTag.mem_addAttr_of_mem hmem m []⟩⟩
  | valueChars tag m w₀ cs =>
    refine ⟨hend, hnodup, hvalue.imp id ?_⟩
    rintro ⟨w', hw', hpart, hfresh⟩
    obtain ⟨rfl, rfl⟩ := TagPart.value.inj hpart
    exact ⟨_, hw'.trans (List.prefix_append _ cs), rfl, hfresh⟩
  | valued tag m w₀ =>
    refine ⟨(OpenTag.addAttr_isEnd ..).trans hend, OpenTag.nodup_addAttr hnodup m w₀, .inl ?_⟩
    rcases hvalue with ⟨w', hw', hmem⟩ | ⟨w', hw', hpart, hfresh⟩
    · exact ⟨w', hw', OpenTag.mem_addAttr_of_mem hmem m w₀⟩
    · obtain ⟨rfl, rfl⟩ := TagPart.value.inj hpart
      exact ⟨_, hw', by simp [OpenTag.addAttr, show m ∉ tag.attrs.map Prod.fst from hfresh]⟩

/-- The attributes of a start tag, as it shows, have the values that were read. -/
theorem value_of_seen {r : Reader} {u : OpenTag × TagPart} (hr : r.state.inTag? = some u) {n w : List Char}
    (hu : HasValue n w u) {t : Trail} {cs : List Char} {name : String} {attrs : List (String × Option String)}
    {selfClosing : Bool} {ss : List Symbol}
    (h : t.seen (r.all cs) = .tag (.startTag name attrs selfClosing) :: ss) {v : String}
    (hv : (String.ofList n, some v) ∈ attrs) : w <+: v.toList := by
  rcases all_inTag hasValue_move hr hu cs with hall | ⟨tag, selfClosing', es, ⟨hend, hnodup, hvalue⟩, hall⟩
  · rw [hall] at h
    cases h
  · obtain ⟨w', hw', hmem⟩ := hvalue.resolve_right nofun
    rw [hall, Trail.seen_append, OpenTag.close, hend, if_neg (by simp)] at h
    obtain ⟨-, hattrs, -⟩ := TokenKind.startTag.inj (Symbol.tag.inj (List.cons.inj h).1)
    rw [← hattrs] at hv
    obtain ⟨b, hb, hname, hvalue⟩ := mem_ordered hv
    obtain rfl : n = b.1 := String.ofList_inj.1 hname
    have same : b.2 = w' := Option.some.inj ((lookup_of_nodup hnodup hb).symm.trans (lookup_of_nodup hnodup hmem))
    rw [hvalue v rfl, same, String.toList_ofList]
    exact hw'

theorem eq_of_not_isValueChar {c : Char} (hc : ¬ IsValueChar c) : c = '\r' ∨ c = '\x00' := by
  by_cases hreturn : c = '\r'
  · exact .inl hreturn
  · exact .inr (Classical.byContradiction fun hnull => hc ⟨hreturn, hnull⟩)

/-- A character that a value does not keep is read as another one. -/
theorem step_value_lost {q : Char} {quoting : Quoting} (hq : IsQuote q quoting) {c : Char} (hc : ¬ IsValueChar c)
    (tag : OpenTag) (n w : List Char) (p : Nat) :
    quotedChar q c = [c] ∧ ∃ d, d ≠ c ∧
      State.step p (.value tag n quoting w none) (newline c) = (.value tag n quoting (w ++ [d]) none, []) := by
  rcases eq_of_not_isValueChar hc with rfl | rfl
  · exact ⟨by cases hq <;> rfl, '\n', by decide, by cases hq <;> rfl⟩
  · exact ⟨by cases hq <;> rfl, replacement, by decide, by cases hq <;> rfl⟩

section Values

variable {tag : OpenTag} {name : String} {attrs : List (String × Option String)} {selfClosing : Bool} {t : Trail}
  {ds : List Char} {ss : List Symbol}

theorem value_chars_of_seen {n : List Char} {q : Char} {quoting : Quoting} (hq : IsQuote q quoting)
    (hend : tag.isEnd = false) (hnodup : (tag.attrs.map Prod.fst).Nodup) (hfresh : n ∉ tag.attrs.map Prod.fst)
    {v : String} (hv : (String.ofList n, some v) ∈ attrs) {w u : List Char} (hvu : v.toList = w ++ u)
    (hsingle : quoting = .single → q ∉ u) {p : Nat}
    (h : t.seen (Reader.all ⟨.value tag n quoting w none, p, false⟩ (u.flatMap (quotedChar q) ++ ds)) =
      .tag (.startTag name attrs selfClosing) :: ss) : ∀ c ∈ u, IsValueChar c := by
  induction u generalizing w p with
  | nil => simp
  | cons c u ih =>
    rw [List.flatMap_cons, List.append_assoc] at h
    have hc : IsValueChar c := by
      apply Classical.byContradiction
      intro hc
      obtain ⟨hquoted, d, hdc, hstep⟩ := step_value_lost hq hc tag n w p
      rw [hquoted, List.singleton_append, Reader.all_cons, hstep, List.nil_append] at h
      -- the lost character stays in the value, whatever becomes of the tag after it
      have has : HasValue n (w ++ [d]) (tag, .value n (w ++ [d])) :=
        ⟨hend, hnodup, .inr ⟨_, List.prefix_refl _, rfl, hfresh⟩⟩
      have prefixed := value_of_seen rfl has h hv
      rw [hvu, List.prefix_append_right_inj] at prefixed
      exact hdc (List.cons_prefix_cons.1 prefixed).1
    have reads : Reads p (.value tag n quoting w none) (quotedChar q c) (.value tag n quoting (w ++ [c]) none) [] :=
      reads_quotedChar hq hc (fun hs he => hsingle hs (he ▸ List.mem_cons_self)) w p
    rw [reads.all, List.nil_append] at h
    refine List.forall_mem_cons.2 ⟨hc, ih (by simpa using hvu) (fun hs he => hsingle hs (List.mem_cons_of_mem _ he)) h⟩

theorem values_of_seen {s : State} (hs : AtBoundary s tag) (hend : tag.isEnd = false)
    {as : List (String × Option String)} (hnodup : (tag.attrs.map Prod.fst ++ as.map fun a => a.1.toList).Nodup)
    (hn : ∀ a ∈ as, IsAttrName a.1.toList) (hsp : Spaced as)
    (hbare : (∃ tag m, s = .attrName tag m) → ∀ b ∈ as.head?, b.1.toList.head? ≠ some '=') (has : ∀ a ∈ as, a ∈ attrs)
    {p : Nat}
    (h : t.seen (Reader.all ⟨s, p, false⟩ (as.flatMap attrChars ++ ds)) =
      .tag (.startTag name attrs selfClosing) :: ss) : ∀ a ∈ as, ∀ v ∈ a.2, ∀ c ∈ v.toList, IsValueChar c := by
  induction as generalizing s tag p with
  | nil => simp
  | cons a as ih =>
    rw [List.flatMap_cons, List.append_assoc] at h
    obtain ⟨n, value⟩ := a
    obtain ⟨hnext, hsp⟩ := hsp.cons
    have hname := hn (n, value) List.mem_cons_self
    have hfirst : (∃ tag m, s = .attrName tag m) → n.toList.head? ≠ some '=' := fun hb => hbare hb (n, value) rfl
    have fresh : n.toList ∉ tag.attrs.map Prod.fst := by
      rw [List.map_cons, List.nodup_append] at hnodup
      exact fun hmem => hnodup.2.2 _ hmem _ List.mem_cons_self rfl
    have ha : ∀ v ∈ value, ∀ c ∈ v.toList, IsValueChar c := by
      rintro v ⟨⟩
      obtain ⟨q, quoting, hq, hsingle, hchars⟩ := quoteAttr_eq v
      have opened := (reads_nextName hs hname hfirst p).trans (reads_openValue hq _)
      have shape : attrChars (n, some v) ++ (as.flatMap attrChars ++ ds) =
          (' ' :: n.toList ++ ['=', q]) ++ (v.toList.flatMap (quotedChar q) ++ (q :: (as.flatMap attrChars ++ ds))) := by
        rw [attrChars_some, hchars]
        simp
      rw [shape, opened.all] at h
      have hv : (String.ofList n.toList, some v) ∈ attrs := by simpa using has _ List.mem_cons_self
      exact value_chars_of_seen hq hend (List.nodup_append.1 hnodup).1 fresh hv rfl hsingle h
    obtain ⟨s', hs', hbare', reads⟩ := reads_attr hs hname ha hfirst p
    rw [reads.all, List.nil_append] at h
    refine List.forall_mem_cons.2 ⟨ha, ih hs' ((OpenTag.addAttr_isEnd ..).trans hend) ?_
      (fun b hb => hn b (List.mem_cons_of_mem _ hb)) hsp (fun hb b hmem => hnext b hmem (hbare' hb))
      (fun b hb => has b (List.mem_cons_of_mem _ hb)) h⟩
    have taken : tag.addAttr (readAttr (n, value)).1 (readAttr (n, value)).2 =
        { tag with attrs := tag.attrs ++ [(n.toList, (readAttr (n, value)).2)] } := OpenTag.addAttr_fresh fresh _
    rw [taken]
    simpa using hnodup

end Values

theorem kept_startTag {name : String} {attrs : List (String × Option String)} {selfClosing : Bool}
    (hfits : (TokenKind.startTag name attrs selfClosing).Fits .markup) (hsp : Spaced attrs) {t : Trail} {ds : List Char}
    {ss : List Symbol} {p : Nat}
    (h : t.seen (Reader.all ⟨.text .markup none, p, false⟩ ((TokenKind.startTag name attrs selfClosing).print ++ ds)) =
      .tag (.startTag name attrs selfClosing) :: ss) : (TokenKind.startTag name attrs selfClosing).Kept .markup := by
  obtain ⟨hname, hnames, hnodup⟩ := hfits
  have shape : (TokenKind.startTag name attrs selfClosing).print ++ ds =
      ('<' :: name.toList) ++ (attrs.flatMap attrChars ++ (closer selfClosing ++ ds)) := by
    simp [TokenKind.print]
  rw [shape, (reads_startName hname p).all, List.nil_append] at h
  have distinct : (attrs.map fun a => a.1.toList).Nodup := by
    simpa [readAttr, Function.comp_def] using nodup_readAttrs hnodup
  refine values_of_seen (.name ⟨p, false, name.toList, []⟩) rfl distinct hnames hsp ?_ (fun _ h => h) h
  rintro ⟨tag, m, h⟩
  exact State.noConfusion h

/-! ### Raw text -/

section RawTexts

variable {n : List Char} {t : Trail}

theorem seen_endTag_ne_char (hn : IsRawName n) (place : Nat) (es : List Event) (x : Char) (ss : List Symbol) :
    t.seen (.endTag place n :: es) ≠ .char x :: ss := by
  simp [Trail.seen, Trail.trace, Trail.symbols, Symbol.visible, hn.notVoid]

/-- A tag that ends the raw text does not show as a character. -/
theorem seen_inTag_ne_char (hn : IsRawName n) {r : Reader} {u : OpenTag × TagPart} (hr : r.state.inTag? = some u)
    (hend : u.1.isEnd = true ∧ u.1.name = n ∧ u.2 ≠ .name) (cs : List Char) (x : Char) (ss : List Symbol) :
    t.seen (r.all cs) ≠ .char x :: ss := by
  have keeps : ∀ u v : OpenTag × TagPart, TagMove u v → (u.1.isEnd = true ∧ u.1.name = n ∧ u.2 ≠ .name) →
      v.1.isEnd = true ∧ v.1.name = n ∧ v.2 ≠ .name := by
    rintro u v hmove ⟨hend, hname, hpart⟩
    have added : ∀ (tag : OpenTag) m w, (tag.addAttr m w).name = tag.name := by
      intro tag m w
      unfold OpenTag.addAttr
      split <;> rfl
    cases hmove with
    | named | nameChar => exact absurd rfl hpart
    | bare | valued => exact ⟨(OpenTag.addAttr_isEnd ..).trans hend, (added ..).trans hname, nofun⟩
    | _ => exact ⟨hend, hname, nofun⟩
  rcases all_inTag keeps hr hend cs with hall | ⟨tag, selfClosing, es, ⟨htag, hname, -⟩, hall⟩
  · rw [hall]
    exact nofun
  · rw [hall, OpenTag.close, if_pos htag, hname]
    exact seen_endTag_ne_char hn _ _ x ss

namespace RawState

theorem seen_ended_ne_char (hn : IsRawName n) {r : RawState} {d : Char} (h : step n r d = none) (start p : Nat)
    (last : Bool) (cs : List Char) (x : Char) (ss : List Symbol) :
    t.seen (((r.toState n start).step p d).2 ++ Reader.all ⟨((r.toState n start).step p d).1, p + 1, last⟩ cs) ≠
      .char x :: ss := by
  cases r with
  | inside part => cases h
  | less part => cases h
  | name part letters =>
    simp only [step] at h
    split at h
    · cases h
    · next ha =>
      split at h
      · next hend =>
        obtain ⟨hletters, hends⟩ := hend
        have between : TagPart.between ≠ .name := fun h => TagPart.noConfusion h
        change t.seen ((endNameStep p (.script n part) start letters d).2 ++ Reader.all
          ⟨(endNameStep p (.script n part) start letters d).1, _, _⟩ cs) ≠ _
        rcases hends with hd | rfl | rfl
        · have step : endNameStep p (.script n part) start letters d = (.beforeAttr ⟨start, true, n, []⟩, []) := by
            simp [endNameStep, ha, Content.name, hletters, hd]
          rw [step]
          exact seen_inTag_ne_char hn rfl ⟨rfl, rfl, between⟩ cs x ss
        · have step : endNameStep p (.script n part) start letters '/' = (.slash ⟨start, true, n, []⟩, []) := by
            simp [endNameStep, ha, Content.name, hletters, isSpace]
          rw [step]
          exact seen_inTag_ne_char hn rfl ⟨rfl, rfl, between⟩ cs x ss
        · have step : endNameStep p (.script n part) start letters '>' = (.text .markup none, [.endTag start n]) := by
            simp [endNameStep, ha, Content.name, hletters, isSpace, OpenTag.close]
          rw [step]
          exact seen_endTag_ne_char hn _ _ x ss
      · cases h

/-- A character that raw text does not keep is yielded at once, as another one. -/
theorem step_lost {r r' : RawState} {c : Char} (hc : ¬ IsValueChar c) (h : step n r (newline c) = some r') :
    r'.pending = [] ∧ shown (newline c) ≠ c := by
  have cases_c := eq_of_not_isValueChar hc
  have differs : shown (newline c) ≠ c := by rcases cases_c with rfl | rfl <;> decide
  have plain : newline c ≠ '<' ∧ newline c ≠ '!' ∧ newline c ≠ '/' ∧ (newline c).isAlpha = false := by
    rcases cases_c with rfl | rfl <;> decide
  obtain ⟨hless, hbang, hslash, halpha⟩ := plain
  have inside : ∀ part, (insideStep part (newline c)).pending = [] := by
    intro part
    rw [insideStep, if_neg fun h => hless h.1]
    rfl
  refine ⟨?_, differs⟩
  cases r with
  | inside part =>
    obtain rfl := Option.some.inj h
    exact inside part
  | less part =>
    obtain rfl := Option.some.inj h
    rw [if_neg hslash]
    cases part with
    | code =>
      rw [lessStep, if_neg hbang]
      exact inside _
    | _ => exact inside _
  | name part letters =>
    simp only [step, halpha, Bool.false_eq_true, if_false] at h
    split at h
    · cases h
    · obtain rfl := Option.some.inj h
      exact inside part

theorem writes (ht : t.inScript = true) (cs : List Char) : t.write cs = cs := by rw [Trail.write, if_pos ht]

/-- Raw text that shows as it is holds no character that is lost, and does not end before its end. -/
theorem run_of_seen (hn : IsRawName n) (ht : t.inScript = true) {r : RawState} {start p : Nat} {u ds : List Char}
    {ss : List Symbol}
    (h : t.seen (Reader.all ⟨r.toState n start, p, false⟩ (u ++ ds)) = chars (r.pending ++ u) ++ ss) :
    (∀ c ∈ u, IsValueChar c) ∧ ∃ r' start' p', run n r u = some r' ∧
      t.seen (Reader.all ⟨r'.toState n start', p', false⟩ ds) = chars r'.pending ++ ss := by
  induction u generalizing r start p with
  | nil => exact ⟨by simp, r, start, p, rfl, by simpa using h⟩
  | cons c u ih =>
    rw [List.cons_append, Reader.all_cons] at h
    cases hstep : step n r (newline c) with
    | none =>
      -- the end tag has come too early, and shows where a character is due
      obtain ⟨x, rest, hx⟩ := List.exists_cons_of_ne_nil (show r.pending ++ c :: u ≠ [] by simp)
      rw [hx] at h
      exact absurd h (seen_ended_ne_char hn hstep start p _ _ x _)
    | some r₁ =>
      obtain ⟨start₁, out, hread, hout⟩ := step_toState hstep start p
      rw [hread, Trail.seen_append, Trail.seen_texts, Trail.run_texts, writes ht] at h
      by_cases hc : IsValueChar c
      · have same : newline c = c := if_neg hc.notReturn
        have shown_c : shown c = c := if_neg hc.notNull
        have notReturn : decide (c = '\r') = false := decide_eq_false hc.notReturn
        rw [same, shown_c] at hout
        have split : r.pending ++ c :: u = out ++ (r₁.pending ++ u) := by
          rw [← List.append_assoc, ← hout, List.append_assoc]
          rfl
        rw [split, chars, chars, List.map_append, List.append_assoc, notReturn] at h
        obtain ⟨hu, r', start', p', hrun, hrest⟩ := ih (List.append_cancel_left h)
        refine ⟨List.forall_mem_cons.2 ⟨hc, hu⟩, r', start', p', ?_, hrest⟩
        rw [run_cons, ← same, hstep]
        exact hrun
      · obtain ⟨hpending, hdiffers⟩ := step_lost hc hstep
        rw [hpending, List.append_nil] at hout
        rw [← hout, chars, chars, List.map_append, List.map_append, List.append_assoc, List.append_assoc] at h
        exact absurd (Symbol.char.inj (List.cons.inj (List.append_cancel_left h)).1) hdiffers

theorem step_open {r : RawState} (h : r.closes = false) (n : List Char) :
    ∃ r', step n r '<' = some r' ∧ r'.pending = [] := by
  have inside : ∀ part : ScriptPart, part.canEnd = false → (insideStep part '<').pending = [] := by
    intro part hpart
    rw [insideStep, if_neg (by simp [hpart])]
    rfl
  cases r with
  | inside part => exact ⟨_, rfl, inside part h⟩
  | less part =>
    refine ⟨lessStep part '<', rfl, ?_⟩
    cases part with
    | code => cases h
    | _ => exact inside _ h
  | name part letters =>
    exact ⟨insideStep part '<', by simp [step, show ('<' : Char).isAlpha = false by decide, isSpace], inside part h⟩

/-- Raw text is closed where a tag shows next. -/
theorem closes_of_seen (ht : t.inScript = true) {r : RawState} {start p : Nat} {ds : List Char} {k : TokenKind}
    {ss : List Symbol}
    (h : t.seen (Reader.all ⟨r.toState n start, p, false⟩ ('<' :: ds)) = chars r.pending ++ .tag k :: ss) :
    r.closes = true := by
  apply Classical.byContradiction
  intro hcloses
  obtain ⟨r', hstep, hpending⟩ := step_open (by simpa using hcloses) n
  obtain ⟨start', out, hread, hout⟩ := step_toState hstep start p
  rw [hpending, List.append_nil] at hout
  rw [Reader.all_cons, show newline '<' = '<' from rfl, hread, Trail.seen_append, Trail.seen_texts, writes ht, ← hout,
    chars, chars, List.map_append, List.append_assoc] at h
  exact Symbol.noConfusion (List.cons.inj (List.append_cancel_left h)).1

end RawState

end RawTexts

end Stencil.Markup
