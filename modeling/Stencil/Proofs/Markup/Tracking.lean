import Stencil.Proofs.Markup.Searching
import Stencil.Proofs.Markup.Traps

/-! What a cursor that lags behind the reader has before it. The gap between them holds nothing that it looks for, save
what the reader has begun to read. Each step without a trap keeps this, and what the reader completes the cursor finds. -/

namespace Stencil.Markup

open Concrete (firsts firsts_map foldl_take_firsts readPair declaredPair past)

/-! ### Characters -/

/-- A character of the source, and what it is read as. -/
inductive ReadAs : Char → Char → Prop
  | itself (c : Char) (h : c ≠ '\r') : ReadAs c c
  | return : ReadAs '\r' '\n'

theorem readAs (c : Char) : ReadAs c (if c = '\r' then '\n' else c) := by
  split
  · next h => exact h ▸ .return
  · next h => exact .itself c h

namespace ReadAs

variable {c d : Char}

theorem eq (h : ReadAs c d) (hd : d ≠ '\n') : c = d := by
  cases h with
  | itself => rfl
  | «return» => exact absurd rfl hd

theorem eq_of_eq {x : Char} (h : ReadAs c d) (hd : d = x) (hx : x ≠ '\n') : c = x ∧ d = x :=
  ⟨(h.eq (hd ▸ hx)).trans hd, hd⟩

theorem eq_of_isAlpha (h : ReadAs c d) (hd : d.isAlpha) : c = d :=
  h.eq fun hn => absurd (hn ▸ hd) (by decide)

theorem ne {x : Char} (h : ReadAs c d) (hd : d ≠ x) (hx : x ≠ '\r') : c ≠ x := by
  cases h with
  | itself => exact hd
  | «return» => exact hx.symm

theorem notReturn (h : ReadAs c d) : d ≠ '\r' := by
  cases h with
  | itself _ h => exact h
  | «return» => decide

theorem isAlpha_eq (h : ReadAs c d) : c.isAlpha = d.isAlpha := by cases h <;> rfl

theorem endsTagName_eq (h : ReadAs c d) (cs : List Char) : endsTagName (c :: cs) = endsTagName [d] := by
  cases h <;> rfl

theorem declarationStep_eq (h : ReadAs c d) (part : DeclarationPart) : part.step c = part.step d := by
  cases h with
  | itself => rfl
  | «return» => cases part <;> rfl

theorem scanStep_eq (h : ReadAs c d) {s : State} {tag : OpenTag} {scan : AttrScan} (hs : s.scan? = some (tag, scan)) :
    scan.step c = scan.step d := by
  cases h with
  | itself => rfl
  | «return» =>
    cases s with
    | value _ n quoting => cases hs; cases quoting <;> rfl
    | text | less | lessSlash | tagName | declaration | endLess | endName => cases hs
    | _ => cases hs; rfl

end ReadAs

/-! ### Gaps -/

/-- Before a gap a cursor finds what it finds before its end, `pending`. -/
def Awaits (content : Content) (gap pending : List Char) : Prop := ∀ cs, content.Alike (gap ++ cs) (pending ++ cs)

/-- A gap that a tag may end, of which `pending` has been read. It began at `place`, and the gap at `k`. -/
structure Pends (content : Content) (k : Nat) (gap : List Char) (place : Nat) (pending : List Char) : Prop where
  split : ∃ g, gap = g ++ pending ∧ place = k + g.length
  awaits : Awaits content gap pending

section Gaps

variable {content : Content} {k place : Nat} {gap pending pending' : List Char} {c : Char}

theorem Awaits.nil (content : Content) : Awaits content [] [] := fun cs => .refl content cs

theorem Awaits.next (h : Awaits content gap pending)
    (hnext : ∀ cs, content.Alike (pending ++ c :: cs) (pending' ++ cs)) : Awaits content (gap ++ [c]) pending' := by
  intro cs
  rw [List.append_assoc]
  exact (h (c :: cs)).trans (hnext cs)

/-- Nothing of the gap is left to look at before the next character. -/
def Passed (content : Content) (gap : List Char) (c : Char) : Prop := ∀ cs, content.Alike (gap ++ c :: cs) (c :: cs)

theorem Awaits.passed (h : Awaits content gap pending) (hnext : ∀ cs, content.Alike (pending ++ c :: cs) (c :: cs)) :
    Passed content gap c := fun cs => (h (c :: cs)).trans (hnext cs)

theorem Passed.awaits (h : Passed content gap c) (hc : c ≠ '<') : Awaits content (gap ++ [c]) [] := by
  intro cs
  rw [List.append_assoc]
  exact (h cs).trans (content.alike_cons hc cs)

theorem Passed.pends (h : Passed content gap '<') : Pends content k (gap ++ ['<']) (k + gap.length) ['<'] where
  split := ⟨gap, rfl, rfl⟩
  awaits cs := by
    rw [List.append_assoc]
    exact h cs

theorem Pends.next (h : Pends content k gap place pending) (c : Char) :
    Pends content k (gap ++ [c]) place (pending ++ [c]) where
  split := by
    obtain ⟨g, rfl, hplace⟩ := h.split
    exact ⟨g, List.append_assoc _ _ _, hplace⟩
  awaits cs := by
    rw [List.append_assoc, List.append_assoc]
    exact h.awaits ([c] ++ cs)

end Gaps

/-! ### Attributes -/

/-- The scan of attributes has come as far as the tag that has been read, and has declared what the tag has. -/
def AttrsRead (after : List Char) (scan : AttrScan) (attrs : List (List Char × List Char)) : Prop :=
  ∃ as, Scans .between after scan (as.map declaredPair) ∧ attrs = (firsts as).map readPair

theorem attrsRead_nil : AttrsRead [] .between [] := ⟨[], Scans.nil _, rfl⟩

/-- A tag keeps of the attributes that it is given the first of each name. -/
theorem attrs_addAttr {tag : OpenTag} {as : List (List Char × Option (List Char))}
    (h : tag.attrs = (firsts as).map readPair) (n : List Char) (v : Option (List Char)) :
    (tag.addAttr n (v.getD [])).attrs = (firsts (as ++ [(n, v)])).map readPair := by
  have pairs : ∀ as : List (List Char × Option (List Char)), firsts (as.map readPair) = (firsts as).map readPair :=
    firsts_map fun a : List Char × Option (List Char) => a.2.getD []
  have folded : ∀ as : List (List Char × Option (List Char)),
      (as.map readPair).foldl OpenTag.take { tag with attrs := [] } = { tag with attrs := (firsts as).map readPair } := by
    intro as
    rw [foldl_take_firsts, pairs]
    simp
  have last := folded (as ++ [(n, v)])
  rw [List.map_append, List.foldl_append, folded, ← h] at last
  exact congrArg OpenTag.attrs last

theorem OpenTag.Takes.same {tag tag' : OpenTag} {new : List Declared} (h : tag.Takes new tag') :
    tag'.place = tag.place ∧ tag'.isEnd = tag.isEnd ∧ tag'.name = tag.name := by
  cases h with
  | nothing => exact ⟨rfl, rfl, rfl⟩
  | attr n v => unfold addAttr; split <;> exact ⟨rfl, rfl, rfl⟩

theorem OpenTag.Takes.attrs {tag tag' : OpenTag} {new : List Declared} (h : tag.Takes new tag')
    {as : List (List Char × Option (List Char))} (has : tag.attrs = (firsts as).map readPair) :
    ∃ as', as'.map declaredPair = as.map declaredPair ++ new ∧ tag'.attrs = (firsts as').map readPair := by
  cases h with
  | nothing => exact ⟨as, (List.append_nil _).symm, has⟩
  | attr n v => exact ⟨as ++ [(n, v)], List.map_append, attrs_addAttr has n v⟩

section AttrsRead

variable {after : List Char} {scan scan' : AttrScan} {tag tag' : OpenTag} {new : List Declared} {c : Char}

theorem AttrsRead.step (h : AttrsRead after scan tag.attrs) (hstep : scan.step c = (new, some scan'))
    (takes : tag.Takes new tag') : AttrsRead (after ++ [c]) scan' tag'.attrs := by
  obtain ⟨as, scans, has⟩ := h
  obtain ⟨as', hnew, has'⟩ := takes.attrs has
  have whole := scans.trans (Scans.cons hstep (Scans.nil scan'))
  rw [List.append_nil, ← hnew] at whole
  exact ⟨as', whole, has'⟩

theorem AttrsRead.close (h : AttrsRead after scan tag.attrs) (hstep : scan.step c = (new, none))
    (takes : tag.Takes new tag') :
    ∃ as, (∀ rest, declared (after ++ c :: rest) = (as.map declaredPair, rest)) ∧
      tag'.attrs = (firsts as).map readPair := by
  obtain ⟨as, scans, has⟩ := h
  obtain ⟨as', hnew, has'⟩ := takes.attrs has
  refine ⟨as', fun rest => ?_, has'⟩
  rw [declared, scans, AttrScan.run, hstep, hnew]

end AttrsRead

/-! ### States -/

/-- What a script holds back that may look like the beginning of its end tag, and is none. -/
def ScriptPart.held : ScriptPart → List Char
  | nestedLess => ['<']
  | nestedClosing letters => '<' :: '/' :: letters
  | _ => []

def Content.held : Content → List Char
  | script _ part => part.held
  | _ => []

def Content.canEnd : Content → Bool
  | script _ part => part.canEnd
  | _ => true

/-- A tag that has been read up to `after`, what follows its name as written. -/
structure Opened (content : Content) (k : Nat) (gap : List Char) (tag : OpenTag) (name after : List Char) : Prop where
  pends : Pends content k gap tag.place (opening tag.isEnd ++ name ++ after)
  name_eq : name.map Char.toLower = tag.name
  ends : endsTagName after
  notClosed : tag.isEnd → '>' ∉ name ++ after

/-- What a cursor has before it where the reader is in a state. The cursor is at `k`, and the gap after it has been
read. -/
def State.Follows (content : Content) (k : Nat) (gap : List Char) : State → Prop
  | text here none => (∀ d ∈ here.held.drop 2, d.isAlpha) ∧ Awaits content gap here.held
  | text here (some _) => here.held = [] ∧ Awaits content gap []
  | less place => Pends content k gap place ['<']
  | lessSlash place => Pends content k gap place ['<', '/']
  | endLess here place => here.canEnd ∧ Pends content k gap place ['<']
  | endName here place letters =>
    here.canEnd ∧ (∀ d ∈ letters, d.isAlpha) ∧ Pends content k gap place ('<' :: '/' :: letters)
  | declaration part => ∀ cs, pastDeclaration? (gap ++ cs) = part.search cs
  | tagName tag => ∃ name, Opened content k gap tag name [] ∧ tag.attrs = []
  | s => ∃ tag scan name after, s.scan? = some (tag, scan) ∧ after ≠ [] ∧ Opened content k gap tag name after ∧
      (tag.isEnd = false → AttrsRead after scan tag.attrs)

/-- What ends a gap that began at `k` is found by a cursor before the gap: a tag at its place, and whole, with its
attributes as they have been read. -/
inductive Delivered (k : Nat) (gap : List Char) : Event → Prop
  | startTag (g body : List Char) {name : List Char} {as : List (List Char × Option (List Char))} (selfClosing : Bool)
    (split : gap = g ++ '<' :: body)
    (found : ∀ rest p, Follower.placeStart ⟨gap ++ rest, p⟩ name = (past p g, as.map declaredPair, ⟨rest, past p gap⟩)) :
    Delivered k gap (.startTag (k + g.length) name ((firsts as).map readPair) selfClosing)
  | endTag (g body : List Char) {name : List Char} (split : gap = g ++ '<' :: body)
    (found : ∀ rest p, Follower.placeEnd ⟨gap ++ rest, p⟩ name = (past p g, ⟨rest, past p gap⟩)) :
    Delivered k gap (.endTag (k + g.length) name)
  | declaration (found : ∀ rest, pastDeclaration? (gap ++ rest) = some rest) : Delivered k gap .declaration

structure ReadsOn (content : Content) (k : Nat) (gap : List Char) (r : Step) : Prop where
  yields : ∃ cs, r.2 = texts cs
  follows : r.1.Follows content k gap

/-- A step reads on in the gap, or completes what ends it. -/
inductive Advances (content : Content) (k : Nat) (gap : List Char) : Step → Prop
  | readsOn {r : Step} (h : ReadsOn content k gap r) : Advances content k gap r
  | delivers (here : Content) {e : Event} (held : here.held = []) (h : Delivered k gap e) :
    Advances content k gap (.text here none, [e])

section Steps

variable {content here : Content} {k place : Nat} {gap : List Char} {c d : Char}

theorem readsOn_silent {s : State} (h : s.Follows content k gap) : ReadsOn content k gap (s, []) := ⟨⟨[], rfl⟩, h⟩

theorem readsOn_text {s : State} (h : s.Follows content k gap) (c : Char) : ReadsOn content k gap (s, [.text c]) :=
  ⟨⟨[c], rfl⟩, h⟩

theorem ReadsOn.afterTexts {r : Step} (h : ReadsOn content k gap r) (cs : List Char) :
    ReadsOn content k gap (r.1, texts cs ++ r.2) := by
  obtain ⟨⟨ds, hds⟩, follows⟩ := h
  exact ⟨⟨cs ++ ds, by rw [hds, texts, texts, texts, List.map_append]⟩, follows⟩

theorem follows_free (held : here.held = []) (h : Awaits content gap []) (r : Option Reference) :
    (State.text here r).Follows content k gap := by
  cases r with
  | none => exact ⟨by rw [held]; nofun, held.symm ▸ h⟩
  | some r => exact ⟨held, h⟩

theorem follows_script {part : ScriptPart} (name : List Char) (held : part.held = []) (h : Awaits content gap []) :
    (State.text (.script name part) none).Follows content k gap :=
  have held : (Content.script name part).held = [] := held
  follows_free held h none

theorem follows_nestedLess (name : List Char) (h : Awaits content gap ['<']) :
    (State.text (.script name .nestedLess) none).Follows content k gap := ⟨nofun, h⟩

theorem held_step {part : ScriptPart} (held : part.held = []) (hd : d ≠ '<') : (part.step d).held = [] := by
  have level : ∀ level : Nat → ScriptPart, (∀ n, (level n).held = []) →
      ∀ n, (ScriptPart.inComment level n d).held = [] := by
    intro level h n
    unfold ScriptPart.inComment
    split_ifs
    · exact h _
    · rfl
    · exact h _
  cases part with
  | code => rfl
  | bang | bangDash => simp only [ScriptPart.step]; split <;> rfl
  | comment n => exact level _ (fun _ => rfl) n
  | opening letters =>
    simp only [ScriptPart.step]
    split_ifs
    · rfl
    · rfl
    · rfl
    · exact level _ (fun _ => rfl) 0
  | nested n =>
    simp only [ScriptPart.step, if_neg hd]
    exact level _ (fun _ => rfl) n
  | nestedLess | nestedClosing => cases held

theorem held_nested_step (hd : d ≠ '<') : (ScriptPart.inComment .nested 0 d).held = [] := by
  have inside : ScriptPart.inComment .nested 0 d = (ScriptPart.nested 0).step d := by
    rw [ScriptPart.step, if_neg hd]
  rw [inside]
  exact held_step rfl hd

theorem notEndsName_of_isAlpha (h : d.isAlpha) : ScriptPart.endsName d = false := by
  by_contra hends
  simp only [ScriptPart.endsName, isSpace, Bool.not_eq_false, Bool.or_eq_true, decide_eq_true_eq] at hends
  rcases hends with ((((rfl | rfl) | rfl) | rfl) | rfl) | rfl <;> exact absurd h (by decide)

theorem canEnd_afterLess (part : ScriptPart) : part.afterLess.canEnd = true := by cases part <;> rfl

theorem readsOn_textStep (held : here.held = []) (hread : ReadAs c d) (h : Passed content gap c) :
    ReadsOn content k (gap ++ [c]) (textStep (k + gap.length) here d) := by
  have less : d = '<' → Pends content k (gap ++ [c]) (k + gap.length) ['<'] := by
    rintro rfl
    obtain rfl := hread.eq (by decide)
    exact h.pends
  have other : d ≠ '<' → Awaits content (gap ++ [c]) [] := fun hd => h.awaits (hread.ne hd (by decide))
  cases here with
  | markup =>
    simp only [textStep]
    split
    · next hd => exact readsOn_silent (less hd)
    · next hd =>
      split
      · exact readsOn_silent (follows_free held (other hd) _)
      · exact readsOn_text (follows_free held (other hd) _) d
  | plain name =>
    simp only [textStep]
    split
    · next hd => exact readsOn_silent (s := .endLess (.plain name) _) ⟨rfl, less hd⟩
    · next hd =>
      split
      · exact readsOn_silent (follows_free held (other hd) _)
      · exact readsOn_text (follows_free held (other hd) _) _
  | script name part =>
    simp only [textStep]
    by_cases hd : d = '<'
    · cases hend : part.canEnd with
      | true =>
        rw [if_pos ⟨hd, rfl⟩]
        exact readsOn_silent (s := .endLess (.script name _) _) ⟨canEnd_afterLess part, less hd⟩
      | false =>
        -- in a script inside a comment this may look like the beginning of an end tag
        have nested : part.step d = .nestedLess := by
          subst hd
          cases part with
          | nested n => rfl
          | nestedLess | nestedClosing => cases held
          | _ => cases hend
        rw [if_neg (by simp), nested]
        exact readsOn_text (follows_nestedLess name (less hd).awaits) _
    · rw [if_neg (fun h => hd h.1)]
      exact readsOn_text (follows_script name (held_step held hd) (other hd)) _

/-- A character of a script inside a comment, after what may look like the beginning of an end tag. -/
theorem readsOn_held (hstage : content.IsStage) {name : List Char} {part : ScriptPart}
    (hhere : (Content.script name part).stage = content)
    (h : (State.text (.script name part) none).Follows content k gap) (hread : ReadAs c d)
    (smooth : (State.text (.script name part) none).isTrap d = false) (p : Nat) (hheld : part.held ≠ []) :
    ReadsOn content k (gap ++ [c]) (textStep p (.script name part) d) := by
  have hne : content ≠ .markup := by
    rintro rfl
    cases hhere
  have step : textStep p (.script name part) d = (.text (.script name (part.step d)) none, [.text (shown d)]) := by
    cases part with
    | nestedLess | nestedClosing => simp [textStep, ScriptPart.canEnd]
    | _ => exact absurd rfl hheld
  rw [step]
  apply readsOn_text
  obtain ⟨hletters, awaits⟩ := h
  have less : d = '<' → part.step d = .nestedLess → Passed content gap c →
      (State.text (.script name (part.step d)) none).Follows content k (gap ++ [c]) := by
    rintro hd hpart passed
    obtain ⟨rfl, rfl⟩ := hread.eq_of_eq hd (by decide)
    rw [hpart]
    exact follows_nestedLess name (passed.pends (k := k)).awaits
  have free : d ≠ '<' → (part.step d).held = [] → Passed content gap c →
      (State.text (.script name (part.step d)) none).Follows content k (gap ++ [c]) :=
    fun hd hpart passed => follows_script name hpart (passed.awaits (hread.ne hd (by decide)))
  cases part with
  | nestedLess =>
    by_cases hslash : d = '/'
    · obtain ⟨rfl, rfl⟩ := hread.eq_of_eq hslash (by decide)
      exact ⟨List.forall_mem_nil _, awaits.next fun cs => .refl content _⟩
    · have passed : Passed content gap c :=
        awaits.passed fun cs => content.alike_endLess hne (hread.ne hslash (by decide)) cs
      by_cases hless : d = '<'
      · exact less hless (by simp [ScriptPart.step, hless]) passed
      · refine free hless ?_ passed
        simp only [ScriptPart.step, if_neg hslash, if_neg hless]
        exact held_nested_step hless
  | nestedClosing letters =>
    have hletters : ∀ e ∈ letters, e.isAlpha := hletters
    cases halpha : d.isAlpha with
    | true =>
      obtain rfl := hread.eq_of_isAlpha halpha
      have more : (ScriptPart.nestedClosing letters).step c = .nestedClosing (letters ++ [c]) := by
        simp [ScriptPart.step, notEndsName_of_isAlpha halpha, halpha]
      rw [more]
      refine ⟨forall_mem_snoc hletters halpha, awaits.next fun cs => ?_⟩
      simpa [Content.held, ScriptPart.held] using Content.Alike.refl content ('<' :: '/' :: (letters ++ c :: cs))
    | false =>
      have notName : ¬ (letters.map Char.toLower = content.name ∧ endsTagName [c]) := by
        rintro ⟨hname, hends⟩
        have same : letters.map Char.toLower = name := by rw [hname, ← hhere]; rfl
        rw [hread.endsTagName_eq] at hends
        simp [State.isTrap, same, hends] at smooth
      have passed : Passed content gap c := awaits.passed fun cs =>
        content.alike_endName hstage hne hletters (hread.isAlpha_eq.trans halpha) notName cs
      by_cases hless : d = '<'
      · exact less hless (by subst hless; simp [ScriptPart.step, ScriptPart.endsName, isSpace]) passed
      · refine free hless ?_ passed
        simp only [ScriptPart.step, halpha, if_neg hless, Bool.false_eq_true, if_false]
        split_ifs
        · rfl
        · rfl
        · exact held_nested_step hless
  | _ => exact absurd rfl hheld

/-- A character after `<` in markup. -/
theorem readsOn_less {start : Nat} (h : Pends .markup k gap start ['<']) (hread : ReadAs c d) :
    ReadsOn .markup k (gap ++ [c]) (lessStep (k + gap.length) start d) := by
  have declaration : ∀ {part : DeclarationPart}, (∀ cs, pastDeclaration? ('<' :: c :: cs) = part.search cs) →
      (State.declaration part).Follows .markup k (gap ++ [c]) := by
    intro part hpart cs
    rw [List.append_assoc]
    exact ((h.awaits (c :: cs)).declarations rfl).trans (hpart cs)
  unfold lessStep
  split
  · next hbang =>
    obtain ⟨rfl, rfl⟩ := hread.eq_of_eq hbang (by decide)
    exact readsOn_silent (declaration fun _ => rfl)
  · next hbang =>
    split
    · next hquestion =>
      obtain ⟨rfl, rfl⟩ := hread.eq_of_eq hquestion (by decide)
      exact readsOn_silent (declaration fun _ => rfl)
    · next hquestion =>
      split
      · next hslash =>
        obtain ⟨rfl, rfl⟩ := hread.eq_of_eq hslash (by decide)
        exact readsOn_silent (s := .lessSlash start) (h.next '/')
      · next hslash =>
        split
        · next halpha =>
          obtain rfl := hread.eq_of_isAlpha halpha
          exact readsOn_silent (s := .tagName _) ⟨[c], ⟨h.next c, rfl, rfl, nofun⟩, rfl⟩
        · next halpha =>
          have passed : Passed .markup gap c := h.awaits.passed fun cs =>
            Content.alike_lessOther (hread.isAlpha_eq.trans (by simpa using halpha)) (hread.ne hslash (by decide))
              (hread.ne hbang (by decide)) (hread.ne hquestion (by decide)) cs
          have held : Content.markup.held = [] := rfl
          exact (readsOn_textStep held hread passed).afterTexts ['<']

theorem readsOn_lessSlash {start : Nat} (h : Pends .markup k gap start ['<', '/']) (hread : ReadAs c d)
    (smooth : (State.lessSlash start).isTrap d = false) (p : Nat) :
    ReadsOn .markup k (gap ++ [c]) (State.step p (.lessSlash start) d) := by
  rw [State.step]
  split
  · next halpha =>
    obtain rfl := hread.eq_of_isAlpha halpha
    have notClose : '>' ∉ [c] := by
      rw [List.mem_singleton]
      rintro rfl
      cases halpha
    exact readsOn_silent (s := .tagName _) ⟨[c], ⟨h.next c, rfl, rfl, fun _ => notClose⟩, rfl⟩
  · next halpha =>
    split
    · next hclose =>
      obtain ⟨rfl, rfl⟩ := hread.eq_of_eq hclose (by decide)
      have held : Content.markup.held = [] := rfl
      exact readsOn_silent (follows_free held (h.awaits.next Content.alike_lessClose) none)
    · next hclose => simp [State.isTrap, halpha, hclose] at smooth

theorem advances_declaration {part : DeclarationPart} (h : (State.declaration part).Follows .markup k gap)
    (hread : ReadAs c d) (smooth : (State.declaration part).isTrap d = false) (p : Nat) :
    Advances .markup k (gap ++ [c]) (State.step p (.declaration part) d) := by
  have search : ∀ cs, pastDeclaration? (gap ++ [c] ++ cs) = part.search (c :: cs) := fun cs => by
    rw [List.append_assoc]
    exact h (c :: cs)
  have same := hread.declarationStep_eq part
  rw [State.step, ← same]
  cases hstep : part.step c with
  | some part' =>
    exact .readsOn (readsOn_silent (s := .declaration part') fun cs => (search cs).trans (part.search_step hstep cs))
  | none =>
    have early : part.closesEarly = false := by
      cases part with
      | start | startDash | bang =>
        have hclose : d ≠ '>' := by simpa [State.isTrap] using smooth
        rw [same] at hstep
        by_cases hdash : d = '-' <;> simp [DeclarationPart.step, hclose, hdash] at hstep
      | _ => rfl
    exact .delivers .markup rfl (.declaration fun rest => (search rest).trans (part.search_end hstep early rest))

theorem held_of_canEnd (h : here.canEnd) : here.held = [] := by
  cases here with
  | script name part =>
    cases part with
    | nestedLess | nestedClosing => cases h
    | _ => rfl
  | _ => rfl

/-- A character after `<` in other content than markup. -/
theorem readsOn_endLess (hne : content ≠ .markup) {start : Nat} (hend : here.canEnd)
    (h : Pends content k gap start ['<']) (hread : ReadAs c d) :
    ReadsOn content k (gap ++ [c]) (endLessStep (k + gap.length) here start d) := by
  unfold endLessStep
  split
  · next hslash =>
    obtain ⟨rfl, rfl⟩ := hread.eq_of_eq hslash (by decide)
    exact readsOn_silent (s := .endName here start []) ⟨hend, nofun, h.next '/'⟩
  · next hslash =>
    have passed : Passed content gap c :=
      h.awaits.passed fun cs => content.alike_endLess hne (hread.ne hslash (by decide)) cs
    have after : ∀ here' : Content, here'.held = [] → ReadsOn content k (gap ++ [c])
        ((textStep (k + gap.length) here' d).1, texts ['<'] ++ (textStep (k + gap.length) here' d).2) :=
      fun here' held => (readsOn_textStep held hread passed).afterTexts ['<']
    cases here with
    | markup => exact after .markup rfl
    | plain name => exact after (.plain name) rfl
    | script name part =>
      simp only [scriptLess]
      split
      · split
        · next hbang =>
          have awaits := passed.awaits (hread.ne (x := '<') (by rw [hbang]; decide) (by decide))
          exact ⟨⟨['<', '!'], rfl⟩, follows_script name rfl awaits⟩
        · exact after (.script name .code) rfl
      · refine after (.script name _) ?_
        split
        · rfl
        · exact held_of_canEnd hend

end Steps

end Stencil.Markup
