import Stencil.Proofs.Markup.Tracking

/-! A step without a trap takes a cursor that lags behind the reader to what it has before it after that step. In a tag this is
by the scan of attributes, which does what the reader does there. -/

namespace Stencil.Markup

open Concrete (firsts readPair declaredPair past past_append upTo_append)

/-! ### Tags -/

section Tags

variable {content here : Content} {k : Nat} {gap name after : List Char} {tag : OpenTag} {c d : Char}

theorem endsTagName_append {after : List Char} (h : endsTagName after) {rest : List Char}
    (hrest : after = [] → endsTagName rest) : endsTagName (after ++ rest) := by
  cases after with
  | nil => exact hrest rfl
  | cons c cs => exact h

theorem Opened.locate_eq (h : Opened content k gap tag name after) (seeks : content.Seeks tag.isEnd tag.name)
    (rest : List Char) (hrest : after = [] → endsTagName rest) :
    locate (opening tag.isEnd) tag.name (gap ++ rest) =
      some (opening tag.isEnd ++ name ++ after ++ rest, after ++ rest) := by
  have same : (opening tag.isEnd ++ tag.name).map Char.toLower = (opening tag.isEnd ++ name).map Char.toLower := by
    rw [List.map_append, List.map_append, ← h.name_eq, List.map_map]
    exact congrArg _ (List.map_congr_left fun c _ => Text.toLower_toLower c)
  have found : afterTag? (opening tag.isEnd) tag.name (opening tag.isEnd ++ name ++ (after ++ rest)) =
      some (after ++ rest) := by
    rw [afterTag?, afterName?_append same, Option.filter_some, endsTagName_append h.ends hrest, if_pos rfl]
  have first : ∃ cs, opening tag.isEnd ++ name ++ (after ++ rest) = '<' :: cs := by
    cases tag.isEnd <;> exact ⟨_, rfl⟩
  rw [(h.pends.awaits rest).tags seeks, List.append_assoc _ after rest]
  obtain ⟨cs, hcs⟩ := first
  rw [hcs] at found ⊢
  rw [locate, found]

theorem Opened.split (h : Opened content k gap tag name after) :
    ∃ g, gap = g ++ (opening tag.isEnd ++ name ++ after) ∧ tag.place = k + g.length := h.pends.split

theorem placeStart_of_locate (g body rest : List Char) {after : List Char} {order : List Declared}
    (found : locate ['<'] name (g ++ (body ++ rest)) = some (body ++ rest, after))
    (hdeclared : declared after = (order, rest)) (p : Position) :
    Follower.placeStart ⟨g ++ (body ++ rest), p⟩ name = (past p g, order, ⟨rest, past p (g ++ body)⟩) := by
  unfold Follower.placeStart
  simp only [found, hdeclared, upTo_append, past_append]

theorem placeEnd_of_locate (g rest : List Char) {body after : List Char} (hbody : '>' ∉ body)
    (found : locate ['<', '/'] name (g ++ (body ++ '>' :: rest)) = some (body ++ '>' :: rest, after)) (p : Position) :
    Follower.placeEnd ⟨g ++ (body ++ '>' :: rest), p⟩ name = (past p g, ⟨rest, past p (g ++ (body ++ ['>']))⟩) := by
  have shape : body ++ '>' :: rest = (body ++ ['>']) ++ rest := by simp
  unfold Follower.placeEnd
  simp only [found, pastClose_append hbody, upTo_append, past_append]
  rw [shape, upTo_append, past_append]

theorem Opened.delivered_startTag (h : Opened content k gap tag name after) (seeks : content.Seeks tag.isEnd tag.name)
    (hstart : tag.isEnd = false) (hends : after = [] → endsTagName [c]) {as : List (List Char × Option (List Char))}
    (hdeclared : ∀ rest, declared (after ++ c :: rest) = (as.map declaredPair, rest)) (selfClosing : Bool) :
    Delivered k (gap ++ [c]) (.startTag tag.place tag.name ((firsts as).map readPair) selfClosing) := by
  have located := fun rest => h.locate_eq seeks (c :: rest) hends
  obtain ⟨g, rfl, hplace⟩ := h.split
  rw [hstart] at located
  rw [hplace, hstart]
  refine .startTag g (name ++ after ++ [c]) selfClosing (by simp [opening]) fun rest p => ?_
  have whole := placeStart_of_locate g ('<' :: (name ++ after ++ [c])) rest
    (by simpa [opening] using located rest) (hdeclared rest) p
  simpa [opening] using whole

theorem Opened.delivered_endTag (h : Opened content k gap tag name after) (seeks : content.Seeks tag.isEnd tag.name)
    (hend : tag.isEnd = true) : Delivered k (gap ++ ['>']) (.endTag tag.place tag.name) := by
  have located := fun rest => h.locate_eq seeks ('>' :: rest) fun _ => rfl
  have notClosed := h.notClosed hend
  obtain ⟨g, rfl, hplace⟩ := h.split
  rw [hend] at located
  rw [hplace, hend]
  refine .endTag g ('/' :: (name ++ after ++ ['>'])) (by simp [opening]) fun rest p => ?_
  have hbody : '>' ∉ '<' :: '/' :: (name ++ after) := by simpa using notClosed
  have whole := placeEnd_of_locate g rest hbody (by simpa [opening] using located rest) p
  simpa [opening] using whole

theorem Opened.next (h : Opened content k gap tag name after) (hends : after = [] → endsTagName [c])
    (hclose : tag.isEnd → c ≠ '>') : Opened content k (gap ++ [c]) tag name (after ++ [c]) where
  pends := by
    rw [← List.append_assoc]
    exact h.pends.next c
  name_eq := h.name_eq
  ends := endsTagName_append h.ends hends
  notClosed hend := by
    rw [← List.append_assoc, List.mem_append, not_or]
    exact ⟨h.notClosed hend, by simpa using (hclose hend).symm⟩

theorem Opened.congr {tag' : OpenTag} (h : Opened content k gap tag name after)
    (same : tag'.place = tag.place ∧ tag'.isEnd = tag.isEnd ∧ tag'.name = tag.name) :
    Opened content k gap tag' name after := by
  obtain ⟨hplace, hend, hname⟩ := same
  exact ⟨by rw [hplace, hend]; exact h.pends, by rw [hname]; exact h.name_eq, h.ends, by rw [hend]; exact h.notClosed⟩

theorem follows_iff_of_scan? {s : State} {scan : AttrScan} (hs : s.scan? = some (tag, scan)) :
    s.Follows content k gap ↔ ∃ name after, after ≠ [] ∧ Opened content k gap tag name after ∧
      (tag.isEnd = false → AttrsRead after scan tag.attrs) := by
  have unfolded : s.Follows content k gap ↔ ∃ tag scan name after, s.scan? = some (tag, scan) ∧ after ≠ [] ∧
      Opened content k gap tag name after ∧ (tag.isEnd = false → AttrsRead after scan tag.attrs) := by
    cases s with
    | text | less | lessSlash | tagName | declaration | endLess | endName => cases hs
    | _ => exact Iff.rfl
  rw [unfolded]
  constructor
  · rintro ⟨tag', scan', name, after, hs', h⟩
    obtain ⟨rfl, rfl⟩ := Prod.mk.inj (Option.some.inj (hs.symm.trans hs'))
    exact ⟨name, after, h⟩
  · rintro ⟨name, after, h⟩
    exact ⟨tag, scan, name, after, hs, h⟩

theorem held_ofStartTag (name : List Char) (selfClosing : Bool) : (Content.ofStartTag name selfClosing).held = [] := by
  unfold Content.ofStartTag
  split_ifs <;> rfl

/-- A step in a start tag that does what the scan of attributes does. -/
theorem advances_scanStep (h : Opened content k gap tag name after) (seeks : content.Seeks tag.isEnd tag.name)
    (hstart : tag.isEnd = false) (hends : after = [] → endsTagName [c]) {scan : AttrScan}
    (attrs : AttrsRead after scan tag.attrs) {r : Step} (hr : ScanStep tag (scan.step c) r) :
    Advances content k (gap ++ [c]) r := by
  generalize hscan : scan.step c = x at hr
  have notEnd : ¬ tag.isEnd := by simp [hstart]
  cases hr with
  | goesOn hs takes =>
    exact .readsOn (readsOn_silent ((follows_iff_of_scan? hs).2 ⟨name, after ++ [c], by simp,
      (h.next hends fun hend => absurd hend notEnd).congr takes.same, fun _ => attrs.step hscan takes⟩))
  | closes takes selfClosing =>
    obtain ⟨hplace, hend, hname⟩ := takes.same
    obtain ⟨as, hdeclared, hattrs⟩ := attrs.close hscan takes
    rw [OpenTag.close, if_neg (by rw [hend]; exact notEnd), hplace, hname, hattrs]
    exact .delivers _ (held_ofStartTag _ _) (h.delivered_startTag seeks hstart hends hdeclared selfClosing)

theorem sameTag_of_moves {u v : OpenTag × TagPart} (h : TagMoves u v) (hu : u.2 ≠ .name) :
    (v.1.place = u.1.place ∧ v.1.isEnd = u.1.isEnd ∧ v.1.name = u.1.name) ∧ v.2 ≠ .name := by
  refine TagMoves.keeps
    (P := fun v => (v.1.place = u.1.place ∧ v.1.isEnd = u.1.isEnd ∧ v.1.name = u.1.name) ∧ v.2 ≠ .name)
    (fun v w hmove hv => ?_) h ⟨⟨rfl, rfl, rfl⟩, hu⟩
  obtain ⟨hsame, hname⟩ := hv
  have add : ∀ (tag : OpenTag) (n w : List Char), (tag.addAttr n w).place = tag.place := fun tag n w => by
    unfold OpenTag.addAttr
    split <;> rfl
  cases hmove with
  | named | nameChar => exact absurd rfl hname
  | attr | attrChar | value | valueChars => exact ⟨hsame, nofun⟩
  | bare | valued => exact ⟨by rwa [add, OpenTag.addAttr_isEnd, OpenTag.addAttr_name], nofun⟩

theorem scan?_of_inTag? {s : State} {u : OpenTag × TagPart} (hu : s.inTag? = some u) (hpart : u.2 ≠ .name) :
    ∃ scan, s.scan? = some (u.1, scan) := by
  cases s with
  | text | less | lessSlash | declaration | endLess | endName => cases hu
  | tagName => cases hu; exact absurd rfl hpart
  | _ => cases hu; exact ⟨_, rfl⟩

theorem advances_endStep (h : Opened content k gap tag name after) (seeks : content.Seeks tag.isEnd tag.name)
    (hend : tag.isEnd = true) (hends : after = [] → endsTagName [c]) (hread : ReadAs c d) (part : TagPart)
    (hpart : part ≠ .name) {r : Step} (goes : TagGoesOn (tag, part) r) (stays : EndsAtClose d r) :
    Advances content k (gap ++ [c]) r := by
  rcases goes with ⟨v, moves, hv, hes⟩ | ⟨tag', selfClosing, moves, rfl⟩
  · obtain ⟨same, hname⟩ := sameTag_of_moves moves hpart
    obtain ⟨scan, hscan⟩ := scan?_of_inTag? hv hname
    have hclose : d ≠ '>' := fun hd => by
      rw [stays.1 hd] at hscan
      cases hscan
    rw [show r = (r.1, []) from Prod.ext rfl hes]
    refine .readsOn (readsOn_silent ((follows_iff_of_scan? hscan).2 ⟨name, after ++ [c], by simp,
      (h.next hends fun _ => hread.ne hclose (by decide)).congr same, fun hstart => ?_⟩))
    rw [same.2.1, hend] at hstart
    cases hstart
  · obtain ⟨⟨hplace, hisEnd, hname⟩, -⟩ := sameTag_of_moves moves hpart
    have hclose : d = '>' := by
      by_contra hd
      have behind := stays.2 hd
      rw [scan?_close] at behind
      cases behind
    obtain ⟨rfl, rfl⟩ := hread.eq_of_eq hclose (by decide)
    rw [OpenTag.close, if_pos (hisEnd.trans hend), hplace, hname]
    exact .delivers .markup rfl (h.delivered_endTag seeks hend)

theorem seeks_of_good {u : OpenTag × TagPart} (good : GoodTag content u) : content.Seeks u.1.isEnd u.1.name :=
  ⟨good.name, good.place.imp id fun h => ⟨h.1, h.2.1⟩⟩

theorem isOddBlank_of_isSpace (h : isSpace c) : isOddBlank c = false := by simp [isOddBlank, h]

theorem advances_tagName (h : (State.tagName tag).Follows content k gap) (good : GoodTag content (tag, .name))
    (hread : ReadAs c d) (smooth : (State.tagName tag).isTrap d = false) (p : Nat) :
    Advances content k (gap ++ [c]) (State.step p (.tagName tag) d) := by
  obtain ⟨name, opened, hattrs⟩ := h
  have seeks : content.Seeks tag.isEnd tag.name := seeks_of_good good
  by_cases ends : isSpace d ∨ d = '/' ∨ d = '>'
  · have step : State.step p (.tagName tag) d = attrStep tag d := by
      rw [State.step, attrStep]
      rcases ends with hd | rfl | rfl
      · rw [if_pos hd, if_pos hd]
      · rfl
      · rfl
    have hends : ([] : List Char) = [] → endsTagName [c] := fun _ => by
      rw [hread.endsTagName_eq]
      rcases ends with hd | rfl | rfl
      · simp [endsTagName, Concrete.isBlank_of_isSpace hd]
      · rfl
      · rfl
    rw [step]
    cases hend : tag.isEnd with
    | true =>
      exact advances_endStep opened seeks hend hends hread .between (by simp) (goesOn_attrStep hread.notReturn)
        endsAtClose_attrStep
    | false =>
      have hodd : isOddBlank d = false := by
        rcases ends with hd | rfl | rfl
        · exact isOddBlank_of_isSpace hd
        · decide
        · decide
      have hnull : d ≠ '\x00' := by
        rintro rfl
        exact absurd ends (by decide)
      have heq : d ≠ '=' := by
        rintro rfl
        exact absurd ends (by decide)
      refine advances_scanStep opened seeks hend hends (hattrs ▸ attrsRead_nil) ?_
      have same : AttrScan.between.step c = AttrScan.between.step d := hread.scanStep_eq (s := .beforeAttr tag) rfl
      rw [same]
      exact .attrStep hodd hnull heq
  · rw [not_or, not_or] at ends
    obtain ⟨hspace, hslash, hclose⟩ := ends
    obtain rfl := hread.eq (by rintro rfl; exact absurd rfl hspace)
    have hnull : c ≠ '\x00' := by simpa [State.isTrap] using smooth
    have step : State.step p (.tagName tag) c = (.tagName { tag with name := tag.name ++ [nameChar c] }, []) := by
      simp [State.step, hspace, slashStep, hslash, hclose]
    rw [step]
    refine .readsOn (readsOn_silent (s := .tagName _) ⟨name ++ [c], ⟨?_, ?_, rfl, fun hend => ?_⟩, hattrs⟩)
    · have next := opened.pends.next c
      simpa using next
    · rw [List.map_append, opened.name_eq, ScanStep.nameChar_eq hnull]
      rfl
    · have notClosed := opened.notClosed hend
      simpa [Ne.symm hclose] using notClosed

theorem advances_scanned {s : State} {scan : AttrScan} (hs : s.scan? = some (tag, scan)) (h : s.Follows content k gap)
    (agrees : s.Agrees content) (plain : ∀ r ∈ s.reference?, r.IsPlain) (hread : ReadAs c d)
    (smooth : s.isTrap d = false) (p : Nat) : Advances content k (gap ++ [c]) (s.step p d) := by
  have inTag : ∃ part, s.inTag? = some (tag, part) ∧ part ≠ .name ∧ GoodTag content (tag, part) := by
    cases s with
    | text | less | lessSlash | tagName | declaration | endLess | endName => cases hs
    | _ =>
      obtain ⟨u, hu, good⟩ := agrees
      cases hu
      cases hs
      exact ⟨_, rfl, nofun, good⟩
  obtain ⟨part, hu, hpart, good⟩ := inTag
  obtain ⟨name, after, hafter, opened, attrs⟩ := (follows_iff_of_scan? hs).1 h
  have seeks : content.Seeks tag.isEnd tag.name := seeks_of_good good
  have hends : after = [] → endsTagName [c] := fun h => absurd h hafter
  cases hend : tag.isEnd with
  | true =>
    exact advances_endStep opened seeks hend hends hread part hpart (step_inTag hu hread.notReturn p)
      (endsAtClose_step (by rw [hs]; rfl) hu plain hend smooth p)
  | false =>
    refine advances_scanStep opened seeks hend hends (attrs hend) ?_
    rw [hread.scanStep_eq hs]
    exact scanStep hs hu good plain hend smooth p

/-- A character after `</` and letters in other content than markup. -/
theorem advances_endName (hstage : content.IsStage) (hhere : here.stage = content) (hne : content ≠ .markup) {start : Nat}
    {letters : List Char} (h : (State.endName here start letters).Follows content k gap) (hread : ReadAs c d)
    (smooth : (State.endName here start letters).isTrap d = false) :
    Advances content k (gap ++ [c]) (endNameStep (k + gap.length) here start letters d) := by
  obtain ⟨hend, hletters, pends⟩ := h
  have hname : here.name = content.name := by rw [← hhere, name_stage]
  unfold endNameStep
  split
  · next halpha =>
    obtain rfl := hread.eq_of_isAlpha halpha
    exact .readsOn (readsOn_silent (s := .endName here start _) ⟨hend, forall_mem_snoc hletters halpha, pends.next c⟩)
  · next halpha =>
    have halpha : d.isAlpha = false := by simpa using halpha
    have opened : letters.map Char.toLower = here.name →
        Opened content k gap ⟨start, true, here.name, []⟩ letters [] := by
      refine fun found => ⟨by simpa [opening] using pends, found, rfl, fun _ => ?_⟩
      rw [List.append_nil]
      exact fun hm => absurd (hletters _ hm) (by decide)
    have behind : letters.map Char.toLower = here.name → endsTagName [c] → c ≠ '>' → ∀ {s : State},
        s.scan? = some (⟨start, true, here.name, []⟩, .between) → Advances content k (gap ++ [c]) (s, []) :=
      fun found hends hclose _ hs => .readsOn (readsOn_silent ((follows_iff_of_scan? hs).2
        ⟨letters, [c], List.cons_ne_nil _ _, (opened found).next (fun _ => hends) fun _ => hclose, by simp⟩))
    simp only []
    split
    · next hd =>
      have hends : endsTagName [c] := by
        rw [hread.endsTagName_eq, endsTagName, Concrete.isBlank_of_isSpace hd.2]
        rfl
      exact behind hd.1 hends (hread.ne (notClose_of_isSpace hd.2) (by decide)) rfl
    · next hspace =>
      split
      · next hd =>
        obtain ⟨found, rfl⟩ := hd
        obtain rfl := hread.eq (by decide)
        exact behind found rfl (by decide) rfl
      · next hslash =>
        split
        · next hd =>
          obtain ⟨found, rfl⟩ := hd
          obtain rfl := hread.eq (by decide)
          have seeks : content.Seeks true here.name := ⟨hname ▸ (hstage.isRawName hne).isTagName, .inr ⟨rfl, hname⟩⟩
          exact .delivers .markup rfl ((opened found).delivered_endTag seeks rfl)
        · next hclose =>
          have notName : ¬ (letters.map Char.toLower = content.name ∧ endsTagName [c]) := by
            rintro ⟨found, hends⟩
            rw [← hname] at found
            rw [hread.endsTagName_eq] at hends
            simp only [found, true_and] at hspace hslash hclose
            simp [endsTagName, hslash, hclose] at hends
            simp [State.isTrap, found, isOddBlank, hends, hspace] at smooth
          have passed : Passed content gap c := pends.awaits.passed fun cs =>
            content.alike_endName hstage hne hletters (hread.isAlpha_eq.trans halpha) notName cs
          exact .readsOn ((readsOn_textStep (held_of_canEnd hend) hread passed).afterTexts ('<' :: '/' :: letters))

/-- A step without a trap. -/
theorem advances_step {s : State} (hstage : content.IsStage) (agrees : s.Agrees content)
    (plain : ∀ r ∈ s.reference?, r.IsPlain) (h : s.Follows content k gap) (hread : ReadAs c d)
    (smooth : s.isTrap d = false) : Advances content k (gap ++ [c]) (s.step (k + gap.length) d) := by
  cases s with
  | text here r =>
    cases r with
    | none =>
      by_cases held : here.held = []
      · have passed : Passed content gap c := by
          have awaits : Awaits content gap here.held := h.2
          rw [held] at awaits
          exact awaits.passed fun cs => .refl content _
        exact .readsOn (readsOn_textStep held hread passed)
      · cases here with
        | markup | plain => exact absurd rfl held
        | script name part => exact .readsOn (readsOn_held hstage agrees h hread smooth _ held)
    | some r =>
      obtain ⟨held, awaits⟩ := h
      have passed : Passed content gap c := awaits.passed fun cs => .refl content _
      have within : (∀ cs, r.step false d ≠ .done cs false) → Awaits content (gap ++ [c]) [] := fun hr =>
        passed.awaits (hread.ne (fun hless => Reference.notDelimiter_of_step (plain r rfl) hr (hless ▸ by decide))
          (by decide))
      rw [State.step]
      cases hr : r.step false d with
      | more r' => exact .readsOn (readsOn_silent (follows_free held (within (by simp [hr])) (some r')))
      | done cs taken =>
        cases taken with
        | true => exact .readsOn ⟨⟨cs, rfl⟩, follows_free held (within (by simp [hr])) none⟩
        | false => exact .readsOn ((readsOn_textStep held hread passed).afterTexts cs)
  | less start =>
    obtain rfl : content = .markup := agrees
    exact .readsOn (readsOn_less h hread)
  | lessSlash start =>
    obtain rfl : content = .markup := agrees
    exact .readsOn (readsOn_lessSlash h hread smooth _)
  | tagName tag =>
    obtain ⟨u, hu, good⟩ := agrees
    cases hu
    exact advances_tagName h good hread smooth _
  | declaration part =>
    obtain rfl : content = .markup := agrees
    exact advances_declaration h hread smooth _
  | endLess here start => exact .readsOn (readsOn_endLess agrees.2 h.1 h.2 hread)
  | endName here start letters => exact advances_endName hstage agrees.1 agrees.2 h hread smooth
  | _ => exact advances_scanned rfl h agrees plain hread smooth _

/-! ### Newlines after carriage returns -/

/-- A newline changes nothing in this state. -/
def State.IsCalm : State → Prop
  | text here _ => here.held = []
  | declaration part => part.step '\n' = some part
  | s => ∃ tag scan, s.scan? = some (tag, scan) ∧ scan.step '\n' = ([], some scan)

theorem follows_newline {s : State} (calm : s.IsCalm) (h : s.Follows content k gap) :
    s.Follows content k (gap ++ ['\n']) := by
  have scanned : ∀ {tag scan}, s.scan? = some (tag, scan) → scan.step '\n' = ([], some scan) →
      s.Follows content k (gap ++ ['\n']) := by
    intro tag scan hs hstep
    obtain ⟨name, after, hafter, opened, attrs⟩ := (follows_iff_of_scan? hs).1 h
    exact (follows_iff_of_scan? hs).2 ⟨name, after ++ ['\n'], by simp,
      opened.next (fun h => absurd h hafter) fun _ => by decide, fun hstart => (attrs hstart).step hstep .nothing⟩
  cases s with
  | text here r =>
    have held : here.held = [] := calm
    have awaits : Awaits content gap [] := by
      cases r with
      | none => exact held ▸ h.2
      | some r => exact h.2
    have passed : Passed content gap '\n' := awaits.passed fun cs => .refl content _
    exact follows_free held (passed.awaits (by decide)) r
  | declaration part =>
    intro cs
    rw [List.append_assoc]
    exact (h ('\n' :: cs)).trans (part.search_step calm cs)
  | less | lessSlash | tagName | endLess | endName =>
    obtain ⟨tag, scan, hs, -⟩ := calm
    cases hs
  | _ =>
    obtain ⟨tag, scan, hs, hstep⟩ := calm
    exact scanned hs hstep

theorem isCalm_textStep (p : Nat) (here : Content) : (textStep p here '\n').1.IsCalm := by
  cases here with
  | markup | plain => rfl
  | script name part =>
    change (part.step '\n').held = []
    cases part with
    | nestedLess => rfl
    | nestedClosing letters =>
      cases h : ScriptPart.isScript letters <;>
        simp [ScriptPart.step, ScriptPart.endsName, isSpace, h, ScriptPart.held]
    | _ => exact held_step rfl (by decide)

theorem isCalm_valueStep (n w : List Char) (quoting : Quoting) : (valueStep tag n quoting w '\n').1.IsCalm := by
  cases quoting <;> exact ⟨_, _, rfl, rfl⟩

/-- A newline leads to a state in which further newlines change nothing. -/
theorem isCalm_step {s : State} (plain : ∀ r ∈ s.reference?, r.IsPlain) (p : Nat) : (s.step p '\n').1.IsCalm := by
  have newline : IsDelimiter '\n' := by decide
  cases s with
  | text here r =>
    cases r with
    | none => exact isCalm_textStep p here
    | some r =>
      obtain ⟨cs, hdone⟩ := r.step_delimiter false (plain r rfl) newline
      rw [State.step, hdone]
      exact isCalm_textStep p here
  | less => exact isCalm_textStep p .markup
  | lessSlash => rfl
  | declaration part => cases part <;> rfl
  | endLess here start =>
    cases here with
    | markup => exact isCalm_textStep p .markup
    | plain name => exact isCalm_textStep p (.plain name)
    | script name part =>
      cases part with
      | code => exact isCalm_textStep p (.script name .code)
      | _ => exact isCalm_textStep p (.script name _)
  | endName here start letters =>
    by_cases found : letters.map Char.toLower = here.name
    · have step : State.step p (.endName here start letters) '\n' = (.beforeAttr ⟨start, true, here.name, []⟩, []) := by
        simp [State.step, endNameStep, found, isSpace]
      rw [step]
      exact ⟨_, _, rfl, rfl⟩
    · have step : State.step p (.endName here start letters) '\n' =
          ((textStep p here '\n').1, texts ('<' :: '/' :: letters) ++ (textStep p here '\n').2) := by
        simp [State.step, endNameStep, found]
      rw [step]
      exact isCalm_textStep p here
  | value tag n quoting w r =>
    cases r with
    | none => exact isCalm_valueStep n w quoting
    | some r =>
      obtain ⟨cs, hdone⟩ := r.step_delimiter true (plain r rfl) newline
      rw [State.step, hdone]
      exact isCalm_valueStep n _ quoting
  | _ => exact ⟨_, _, rfl, rfl⟩

end Tags

end Stencil.Markup
