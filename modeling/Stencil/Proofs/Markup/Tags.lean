import Stencil.Proofs.Markup.Reading

/-! How printed tags are read: a tag name, its attributes one by one, and the character that closes the tag. Between
two attributes the reader stands in one of three states, which `AtBoundary` takes together. -/

namespace Stencil.Markup

/-- Characters that are listed are looked at one by one. -/
theorem forall_mem_of_all {p : Char → Prop} [DecidablePred p] {cs : List Char}
    (h : cs.all (fun c => decide (p c)) = true) : ∀ c ∈ cs, p c := by
  intro c hc
  exact of_decide_eq_true (List.all_eq_true.1 h c hc)

/-- A character that a name goes on with. -/
structure StaysInName (c : Char) : Prop where
  notSpace : isSpace c = false
  notSlash : c ≠ '/'
  notClose : c ≠ '>'
  notReturn : c ≠ '\r'

/-- A character that names keep as it is. -/
structure IsNameChar (c : Char) : Prop where
  kept : nameChar c = c
  notSpace : isSpace c = false
  notSlash : c ≠ '/'
  notClose : c ≠ '>'
  notReturn : c ≠ '\r'

/-- The name of a tag: a letter, and characters that names keep. -/
structure IsTagName (n : List Char) : Prop where
  head : ∃ c cs, n = c :: cs ∧ c.isAlpha
  chars : ∀ c ∈ n, IsNameChar c

/-- The name of an attribute: only its first character may be an equals sign. -/
structure IsAttrName (n : List Char) : Prop where
  notEmpty : n ≠ []
  chars : ∀ c ∈ n, IsNameChar c
  tail : '=' ∉ n.tail

theorem forall_mem_snoc {p : Char → Prop} {n : List Char} {c : Char} (hn : ∀ d ∈ n, p d) (hc : p c) :
    ∀ d ∈ n ++ [c], p d := by
  intro d hd
  rcases List.mem_append.1 hd with hd | hd
  · exact hn d hd
  · exact List.mem_singleton.1 hd ▸ hc

theorem IsTagName.snoc {n : List Char} {c : Char} (h : IsTagName n) (hc : IsNameChar c) : IsTagName (n ++ [c]) where
  head := by
    obtain ⟨d, ds, rfl, ha⟩ := h.head
    exact ⟨d, ds ++ [c], rfl, ha⟩
  chars := forall_mem_snoc h.chars hc

theorem isAttrName_singleton {c : Char} (hc : IsNameChar c) : IsAttrName [c] := ⟨by simp, by simpa using hc, by simp⟩

theorem IsAttrName.snoc {n : List Char} {c : Char} (h : IsAttrName n) (hc : IsNameChar c) (heq : c ≠ '=') :
    IsAttrName (n ++ [c]) where
  notEmpty := by simp
  chars := forall_mem_snoc h.chars hc
  tail := by
    obtain ⟨d, ds, rfl⟩ := List.exists_cons_of_ne_nil h.notEmpty
    simpa [Ne.symm heq] using h.tail

theorem slashStep_of_staysInName {c : Char} (h : StaysInName c) (tag : OpenTag) : slashStep tag c = none := by
  simp [slashStep, h.notSlash, h.notClose]

theorem IsNameChar.stays {c : Char} (h : IsNameChar c) : StaysInName c :=
  ⟨h.notSpace, h.notSlash, h.notClose, h.notReturn⟩

theorem slashStep_of_isNameChar {c : Char} (h : IsNameChar c) (tag : OpenTag) : slashStep tag c = none :=
  slashStep_of_staysInName h.stays tag

theorem map_nameChar {n : List Char} (h : ∀ c ∈ n, IsNameChar c) : n.map nameChar = n := by
  rw [List.map_congr_left fun c hc => (h c hc).kept, List.map_id']

/-! ### Tag names -/

theorem reads_tagChars (tag : OpenTag) {n : List Char} (h : ∀ c ∈ n, StaysInName c) (p : Nat) :
    Reads p (.tagName tag) n (.tagName { tag with name := tag.name ++ n.map nameChar }) [] := by
  induction n generalizing tag p with
  | nil => simpa using Reads.nil p (.tagName tag)
  | cons c n ih =>
    have hc := h c List.mem_cons_self
    have step : State.step p (.tagName tag) c = (.tagName { tag with name := tag.name ++ [nameChar c] }, []) := by
      simp [State.step, hc.notSpace, slashStep_of_staysInName hc]
    have rest := ih { tag with name := tag.name ++ [nameChar c] } (fun d hd => h d (List.mem_cons_of_mem _ hd)) (p + 1)
    rw [List.append_assoc] at rest
    exact Reads.silent hc.notReturn step rest

theorem toLower_of_isNameChar {c : Char} (h : IsNameChar c) : c.toLower = c := by
  have hkept := h.kept
  unfold nameChar shown at hkept
  split at hkept
  · subst hkept
    decide
  · exact hkept

section Openings

variable {c : Char} {cs : List Char}

theorem reads_startOf (ha : c.isAlpha) (h : ∀ d ∈ cs, StaysInName d) (p : Nat) :
    Reads p (.text .markup none) ('<' :: c :: cs) (.tagName ⟨p, false, c.toLower :: cs.map nameChar, []⟩) [] := by
  have other : ∀ d : Char, d.isAlpha = false → c ≠ d := by
    rintro d hd rfl
    exact absurd ha (by simp [hd])
  have less : State.step p (.text .markup none) '<' = (.less p, []) := rfl
  have first : State.step (p + 1) (.less p) c = (.tagName ⟨p, false, [c.toLower], []⟩, []) := by
    simp [State.step, lessStep, other '!' (by decide), other '?' (by decide), other '/' (by decide), ha]
  have rest := reads_tagChars ⟨p, false, [c.toLower], []⟩ h (p + 2)
  exact Reads.silent (by decide) less (Reads.silent (other '\r' (by decide)) first rest)

theorem reads_endOf (ha : c.isAlpha) (h : ∀ d ∈ cs, StaysInName d) (p : Nat) :
    Reads p (.text .markup none) ('<' :: '/' :: c :: cs) (.tagName ⟨p, true, c.toLower :: cs.map nameChar, []⟩) [] := by
  have notReturn : c ≠ '\r' := by
    rintro rfl
    exact absurd ha (by decide)
  have less : State.step p (.text .markup none) '<' = (.less p, []) := rfl
  have slash : State.step (p + 1) (.less p) '/' = (.lessSlash p, []) := rfl
  have first : State.step (p + 2) (.lessSlash p) c = (.tagName ⟨p, true, [c.toLower], []⟩, []) := by
    simp [State.step, ha]
  have rest := reads_tagChars ⟨p, true, [c.toLower], []⟩ h (p + 3)
  exact Reads.silent (by decide) less (Reads.silent (by decide) slash (Reads.silent notReturn first rest))

end Openings

theorem reads_startName {n : List Char} (h : IsTagName n) (p : Nat) :
    Reads p (.text .markup none) ('<' :: n) (.tagName ⟨p, false, n, []⟩) [] := by
  obtain ⟨c, cs, rfl, ha⟩ := h.head
  have hcs : ∀ d ∈ cs, IsNameChar d := fun d hd => h.chars d (List.mem_cons_of_mem _ hd)
  have name := reads_startOf ha (fun d hd => (hcs d hd).stays) p
  rwa [toLower_of_isNameChar (h.chars c List.mem_cons_self), map_nameChar hcs] at name

theorem reads_endTag {n : List Char} (h : IsTagName n) (p : Nat) :
    Reads p (.text .markup none) ('<' :: '/' :: n ++ ['>']) (.text .markup none) [.endTag p n] := by
  obtain ⟨c, cs, rfl, ha⟩ := h.head
  have hcs : ∀ d ∈ cs, IsNameChar d := fun d hd => h.chars d (List.mem_cons_of_mem _ hd)
  have name := reads_endOf ha (fun d hd => (hcs d hd).stays) p
  rw [toLower_of_isNameChar (h.chars c List.mem_cons_self), map_nameChar hcs] at name
  exact name.trans (Reads.one (by decide) rfl)

/-! ### Attributes -/

/-- The reader stands after the name of a tag, after a value, or after the name of an attribute that may have no
value. In each case `tag` is what it has of the tag. -/
inductive AtBoundary : State → OpenTag → Prop
  | name (tag : OpenTag) : AtBoundary (.tagName tag) tag
  | value (tag : OpenTag) : AtBoundary (.afterValue tag) tag
  | bare (tag : OpenTag) (n : List Char) : AtBoundary (.attrName tag n) (tag.addAttr n [])

theorem reads_attrChars (tag : OpenTag) (m : List Char) {n : List Char} (h : ∀ c ∈ n, StaysInName c) (heq : '=' ∉ n)
    (p : Nat) : Reads p (.attrName tag m) n (.attrName tag (m ++ n.map nameChar)) [] := by
  induction n generalizing m p with
  | nil => simpa using Reads.nil p (.attrName tag m)
  | cons c n ih =>
    rw [List.mem_cons, not_or] at heq
    have hc := h c List.mem_cons_self
    have step : State.step p (.attrName tag m) c = (.attrName tag (m ++ [nameChar c]), []) := by
      simp [State.step, attrNameStep, hc.notSpace, Ne.symm heq.1, slashStep_of_staysInName hc]
    have rest := ih (m ++ [nameChar c]) (fun d hd => h d (List.mem_cons_of_mem _ hd)) heq.2 (p + 1)
    rw [List.append_assoc] at rest
    exact Reads.silent hc.notReturn step rest

theorem reads_attrName (tag : OpenTag) (m : List Char) {n : List Char} (h : ∀ c ∈ n, IsNameChar c) (heq : '=' ∉ n)
    (p : Nat) : Reads p (.attrName tag m) n (.attrName tag (m ++ n)) [] := by
  have name := reads_attrChars tag m (fun c hc => (h c hc).stays) heq p
  rwa [map_nameChar h] at name

/-- A blank and the name of an attribute, after a boundary. After a bare name an equals sign would begin a value. -/
theorem reads_nextName {s : State} {tag : OpenTag} {n : List Char} (hs : AtBoundary s tag) (hn : IsAttrName n)
    (hbare : (∃ tag m, s = .attrName tag m) → n.head? ≠ some '=') (p : Nat) :
    Reads p s (' ' :: n) (.attrName tag n) [] := by
  obtain ⟨c, cs, rfl⟩ := List.exists_cons_of_ne_nil hn.notEmpty
  have hc := hn.chars c List.mem_cons_self
  have rest := reads_attrName tag [c] (fun d hd => hn.chars d (List.mem_cons_of_mem _ hd)) hn.tail
    (p + 2)
  have fresh : State.step (p + 1) (.beforeAttr tag) c = (.attrName tag [c], []) := by
    simp [State.step, attrStep, hc.notSpace, slashStep_of_isNameChar hc, hc.kept]
  cases hs with
  | name => exact Reads.silent (by decide) rfl (Reads.silent hc.notReturn fresh rest)
  | value => exact Reads.silent (by decide) rfl (Reads.silent hc.notReturn fresh rest)
  | bare tag m =>
    have heq : c ≠ '=' := fun h => hbare ⟨tag, m, rfl⟩ (by rw [h]; rfl)
    have next : State.step (p + 1) (.afterAttrName tag m) c = (.attrName (tag.addAttr m []) [c], []) := by
      simp [State.step, afterAttrNameStep, hc.notSpace, heq, slashStep_of_isNameChar hc, hc.kept]
    exact Reads.silent (by decide) rfl (Reads.silent hc.notReturn next rest)

structure IsValueChar (c : Char) : Prop where
  notReturn : c ≠ '\r'
  notNull : c ≠ '\x00'

/-- A quote, and how the reader knows it. -/
inductive IsQuote : Char → Quoting → Prop
  | double : IsQuote '"' .double
  | single : IsQuote '\'' .single

def quotedChar (q c : Char) : List Char :=
  if c = '&' then "&amp;".toList else if c = q then "&quot;".toList else [c]

/-- A value is put in double quotes, or in single quotes if it holds none. -/
theorem quoteAttr_eq (v : String) : ∃ q quoting, IsQuote q quoting ∧ (quoting = .single → q ∉ v.toList) ∧
    (Render.quoteAttr v).toList = q :: (v.toList.flatMap (quotedChar q) ++ [q]) := by
  by_cases h : '"' ∈ v.toList ∧ '\'' ∉ v.toList
  · refine ⟨'\'', .single, .single, fun _ => h.2, ?_⟩
    simp only [Render.quoteAttr, if_pos h, String.toList_ofList, List.cons_append]
    rw [List.flatMap_def, List.flatMap_def, List.map_congr_left]
    intro c hc
    have hq : c ≠ '\'' := fun hq => h.2 (hq ▸ hc)
    simp [quotedChar, hq]
  · refine ⟨'"', .double, .double, nofun, ?_⟩
    simp only [Render.quoteAttr, if_neg h, String.toList_ofList, List.cons_append]
    rw [List.flatMap_def, List.flatMap_def, List.map_congr_left]
    intro c _
    unfold quotedChar
    by_cases hq : c = '"'
    · subst hq; rfl
    · rw [if_neg hq, if_neg hq]

section Values

variable {tag : OpenTag} {n : List Char} {q : Char} {quoting : Quoting}

theorem valueStep_amp (v : List Char) (p : Nat) :
    State.step p (.value tag n quoting v none) '&' = (.value tag n quoting v (some .start), []) := rfl

theorem reads_quotedChar (hq : IsQuote q quoting) {c : Char} (hc : IsValueChar c)
    (hsingle : quoting = .single → c ≠ q) (v : List Char) (p : Nat) :
    Reads p (.value tag n quoting v none) (quotedChar q c) (.value tag n quoting (v ++ [c]) none) [] := by
  unfold quotedChar
  split
  · next h =>
    subst h
    exact Reads.silent (by decide) (valueStep_amp v p)
      (reads_valueReference (by decide) (spelled_amp true) (p + 1))
  · next hamp =>
    split
    · next h =>
      subst h
      cases hq with
      | double =>
        exact Reads.silent (by decide) (valueStep_amp v p)
          (reads_valueReference (by decide) spelled_quot (p + 1))
      | single => exact absurd rfl (hsingle rfl)
    · next hne =>
      apply Reads.one hc.notReturn
      cases hq <;> simp [State.step, valueStep, hamp, hne, shown, hc.notNull]

theorem reads_quotedChars (hq : IsQuote q quoting) {w : List Char} (hw : ∀ c ∈ w, IsValueChar c)
    (hsingle : quoting = .single → q ∉ w) (v : List Char) (p : Nat) :
    Reads p (.value tag n quoting v none) (w.flatMap (quotedChar q)) (.value tag n quoting (v ++ w) none) [] := by
  induction w generalizing v p with
  | nil => simpa using Reads.nil p (.value tag n quoting v none)
  | cons c w ih =>
    have hc := hw c List.mem_cons_self
    have first : Reads p (.value tag n quoting v none) (quotedChar q c) (.value tag n quoting (v ++ [c]) none) [] :=
      reads_quotedChar hq hc (fun hs he => hsingle hs (he ▸ List.mem_cons_self)) v p
    have rest := ih (fun d hd => hw d (List.mem_cons_of_mem _ hd))
      (fun hs he => hsingle hs (List.mem_cons_of_mem _ he)) (v ++ [c]) (p + (quotedChar q c).length)
    rw [List.append_assoc] at rest
    exact first.trans rest

theorem reads_openValue (hq : IsQuote q quoting) (p : Nat) :
    Reads p (.attrName tag n) ['=', q] (.value tag n quoting [] none) [] := by
  have equals : State.step p (.attrName tag n) '=' = (.beforeValue tag n, []) := rfl
  have opened : State.step (p + 1) (.beforeValue tag n) q = (.value tag n quoting [] none, []) := by
    cases hq <;> rfl
  have notReturn : q ≠ '\r' := by cases hq <;> decide
  exact Reads.silent (by decide) equals (Reads.one notReturn opened)

theorem reads_value {v : String} (hv : ∀ c ∈ v.toList, IsValueChar c) (p : Nat) :
    Reads p (.attrName tag n) ('=' :: (Render.quoteAttr v).toList) (.afterValue (tag.addAttr n v.toList)) [] := by
  obtain ⟨q, quoting, hq, hsingle, hchars⟩ := quoteAttr_eq v
  have closed : ∀ p w, State.step p (.value tag n quoting w none) q = (.afterValue (tag.addAttr n w), []) := by
    cases hq <;> exact fun _ _ => rfl
  have notReturn : q ≠ '\r' := by cases hq <;> decide
  have inside : Reads (p + 2) (.value tag n quoting [] none) (v.toList.flatMap (quotedChar q))
      (.value tag n quoting v.toList none) [] := reads_quotedChars hq hv hsingle [] (p + 2)
  have whole := (reads_openValue hq p).trans (inside.trans (Reads.one notReturn (closed _ _)))
  rw [hchars]
  exact whole

end Values

/-- The attributes that the reader has of printed ones: one without a value has the empty value. -/
def readAttr (a : String × Option String) : List Char × List Char := (a.1.toList, (a.2.getD "").toList)

theorem attrChars_none (n : String) : attrChars (n, none) = ' ' :: n.toList := by
  simp [attrChars, Render.attrText, String.toList_append]

theorem attrChars_some (n v : String) :
    attrChars (n, some v) = ' ' :: n.toList ++ '=' :: (Render.quoteAttr v).toList := by
  simp [attrChars, Render.attrText, String.toList_append]

theorem reads_attr {s : State} {tag : OpenTag} {a : String × Option String} (hs : AtBoundary s tag)
    (hn : IsAttrName a.1.toList) (hv : ∀ v ∈ a.2, ∀ c ∈ v.toList, IsValueChar c)
    (hbare : (∃ tag m, s = .attrName tag m) → a.1.toList.head? ≠ some '=') (p : Nat) :
    ∃ s', AtBoundary s' (tag.addAttr (readAttr a).1 (readAttr a).2) ∧
      ((∃ tag m, s' = .attrName tag m) → a.2 = none) ∧ Reads p s (attrChars a) s' [] := by
  obtain ⟨n, value⟩ := a
  have name := reads_nextName hs hn hbare p
  cases value with
  | none =>
    refine ⟨_, .bare tag n.toList, fun _ => rfl, ?_⟩
    rw [attrChars_none]
    exact name
  | some v =>
    refine ⟨_, .value _, ?_, ?_⟩
    · rintro ⟨tag', m, h⟩
      exact State.noConfusion h
    · rw [attrChars_some]
      exact name.trans (reads_value (hv v rfl) _)

/-- Where an attribute without a value stands directly before one whose name begins with an equals sign, that sign
would be read as the one before a value. -/
def Spaced : List (String × Option String) → Prop
  | [] => True
  | a :: as => (∀ b ∈ as.head?, a.2 = none → b.1.toList.head? ≠ some '=') ∧ Spaced as

/-- What the reader needs of attributes to read them back. -/
structure ReadableAttrs (attrs : List (String × Option String)) : Prop where
  names : ∀ a ∈ attrs, IsAttrName a.1.toList
  nodup : (attrs.map Prod.fst).Nodup
  values : ∀ a ∈ attrs, ∀ v ∈ a.2, ∀ c ∈ v.toList, IsValueChar c
  spaced : Spaced attrs

theorem Spaced.cons {a : String × Option String} {as : List (String × Option String)} (h : Spaced (a :: as)) :
    (∀ b ∈ as.head?, a.2 = none → b.1.toList.head? ≠ some '=') ∧ Spaced as := h

def OpenTag.take (tag : OpenTag) (a : List Char × List Char) : OpenTag := tag.addAttr a.1 a.2

theorem reads_attrs {s : State} {tag : OpenTag} {attrs : List (String × Option String)} (hs : AtBoundary s tag)
    (hn : ∀ a ∈ attrs, IsAttrName a.1.toList) (hv : ∀ a ∈ attrs, ∀ v ∈ a.2, ∀ c ∈ v.toList, IsValueChar c)
    (hsp : Spaced attrs) (hbare : (∃ tag m, s = .attrName tag m) → ∀ b ∈ attrs.head?, b.1.toList.head? ≠ some '=')
    (p : Nat) :
    ∃ s', AtBoundary s' ((attrs.map readAttr).foldl OpenTag.take tag) ∧ Reads p s (attrs.flatMap attrChars) s' [] := by
  induction attrs generalizing s tag p with
  | nil => exact ⟨s, hs, Reads.nil p s⟩
  | cons a attrs ih =>
    obtain ⟨hnext, hsp⟩ := hsp.cons
    obtain ⟨s₁, hs₁, hb₁, h₁⟩ := reads_attr hs (hn a List.mem_cons_self) (hv a List.mem_cons_self)
      (fun h => hbare h a rfl) p
    obtain ⟨s₂, hs₂, h₂⟩ := ih hs₁ (fun b hb => hn b (List.mem_cons_of_mem _ hb))
      (fun b hb => hv b (List.mem_cons_of_mem _ hb)) hsp (fun h b hb => hnext b hb (hb₁ h))
      (p + (attrChars a).length)
    exact ⟨s₂, hs₂, h₁.trans h₂⟩

theorem OpenTag.addAttr_fresh {tag : OpenTag} {n : List Char} (h : n ∉ tag.attrs.map Prod.fst) (w : List Char) :
    tag.addAttr n w = { tag with attrs := tag.attrs ++ [(n, w)] } := by
  rw [addAttr, if_neg h]

/-- Attributes of different names are all kept, in their order. -/
theorem foldl_take {tag : OpenTag} {attrs : List (List Char × List Char)}
    (h : ((tag.attrs ++ attrs).map Prod.fst).Nodup) :
    attrs.foldl OpenTag.take tag = { tag with attrs := tag.attrs ++ attrs } := by
  induction attrs generalizing tag with
  | nil => simp
  | cons a attrs ih =>
    have fresh : a.1 ∉ tag.attrs.map Prod.fst := by
      rw [List.map_append, List.nodup_append] at h
      exact fun ha => h.2.2 _ ha _ (by simp) rfl
    rw [List.foldl_cons, OpenTag.take, OpenTag.addAttr_fresh fresh, ih (by simpa using h)]
    simp

/-! ### Whole tags -/

theorem nodup_readAttrs {attrs : List (String × Option String)} (h : (attrs.map Prod.fst).Nodup) :
    ((attrs.map readAttr).map Prod.fst).Nodup := by
  have names : (attrs.map readAttr).map Prod.fst = (attrs.map Prod.fst).map String.toList := by
    simp [readAttr]
  rw [names]
  exact List.Pairwise.map String.toList (fun _ _ hne he => hne (String.toList_inj.1 he)) h

theorem reads_head {name : String} {attrs : List (String × Option String)} (hn : IsTagName name.toList)
    (ha : ReadableAttrs attrs) (p : Nat) :
    ∃ s, AtBoundary s ⟨p, false, name.toList, attrs.map readAttr⟩ ∧
      Reads p (.text .markup none) ('<' :: name.toList ++ attrs.flatMap attrChars) s [] := by
  obtain ⟨s, hs, h⟩ := reads_attrs (.name ⟨p, false, name.toList, []⟩) ha.names ha.values ha.spaced
    (by rintro ⟨tag, m, h⟩; exact State.noConfusion h) (p + ('<' :: name.toList).length)
  rw [foldl_take (by simpa using nodup_readAttrs ha.nodup)] at hs
  exact ⟨s, hs, (reads_startName hn p).trans h⟩

theorem reads_closer {s : State} {tag : OpenTag} (hs : AtBoundary s tag) (selfClosing : Bool) (p : Nat) :
    Reads p s (closer selfClosing) (tag.close selfClosing).1 (tag.close selfClosing).2 := by
  cases selfClosing with
  | false => cases hs <;> exact Reads.one (by decide) rfl
  | true => cases hs <;> exact Reads.silent (by decide) rfl (Reads.one (by decide) rfl)

theorem reads_startTag {name : String} {attrs : List (String × Option String)} (hn : IsTagName name.toList)
    (ha : ReadableAttrs attrs) (selfClosing : Bool) (p : Nat) :
    Reads p (.text .markup none) (TokenKind.startTag name attrs selfClosing).print
      (.text (.ofStartTag name.toList selfClosing) none)
      [.startTag p name.toList (attrs.map readAttr) selfClosing] := by
  obtain ⟨s, hs, h⟩ := reads_head hn ha p
  exact h.trans (reads_closer hs selfClosing _)

theorem reads_endName {content : Content} {n : List Char} (h : ∀ c ∈ n, c.isAlpha) (start : Nat) (m : List Char)
    (p : Nat) : Reads p (.endName content start m) n (.endName content start (m ++ n)) [] := by
  induction n generalizing m p with
  | nil => simpa using Reads.nil p (.endName content start m)
  | cons c n ih =>
    have hc := h c List.mem_cons_self
    have notReturn : c ≠ '\r' := by rintro rfl; exact absurd hc (by decide)
    have step : State.step p (.endName content start m) c = (.endName content start (m ++ [c]), []) := by
      simp [State.step, endNameStep, hc]
    have rest := ih (fun d hd => h d (List.mem_cons_of_mem _ hd)) (m ++ [c]) (p + 1)
    rw [List.append_assoc] at rest
    exact Reads.silent notReturn step rest

/-- After `<` in other content than markup, the rest of the end tag that ends it. -/
theorem reads_afterLess (content : Content) {n : List Char} (hn : content.name = n) (ha : ∀ c ∈ n, c.isAlpha)
    (hl : n.map Char.toLower = n) (start p : Nat) :
    Reads p (.endLess content start) ('/' :: n ++ ['>']) (.text .markup none) [.endTag start n] := by
  have slash : State.step p (.endLess content start) '/' = (.endName content start [], []) := rfl
  have close : ∀ p, State.step p (.endName content start n) '>' = (.text .markup none, [.endTag start n]) := by
    intro p
    simp [State.step, endNameStep, hn, hl, isSpace, OpenTag.close, show ('>' : Char).isAlpha = false by decide]
  exact Reads.silent (by decide) slash ((reads_endName ha start [] (p + 1)).trans (Reads.one (by decide) (close _)))

end Stencil.Markup
