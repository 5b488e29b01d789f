import Mathlib.Data.List.Forall2
import Stencil.Proofs.Markup.Advancing
import Stencil.Proofs.Markup.TagTokens

/-! As far as a source is read without traps, the cursor keeps in step with the reader: each tag has the position of its
`<`, and its attributes are in the order in which they were read and have their values. -/

namespace Stencil.Markup

open Concrete (firsts readPair declaredPair past inDeclaredOrder_firsts nodup_firsts)

/-! ### Readers -/

/-- A cursor that has come past `consumed` follows a reader that has read `gap` after that. -/
structure Reader.Follows (content : Content) (consumed gap : List Char) (r : Reader) : Prop where
  isStage : content.IsStage
  agrees : r.state.Agrees content
  plain : ∀ reference ∈ r.state.reference?, reference.IsPlain
  place : r.place = consumed.length + gap.length
  follows : r.state.Follows content consumed.length gap
  calm : r.afterReturn → r.state.IsCalm

theorem Reader.follows_start : Reader.start.Follows .markup [] [] where
  isStage := trivial
  agrees := rfl
  plain := nofun
  place := rfl
  follows := ⟨nofun, .nil .markup⟩
  calm := nofun

/-- A step of a reader reads on in the gap, or completes what ends it. -/
theorem Reader.Follows.step {content : Content} {consumed gap : List Char} {r : Reader}
    (h : r.Follows content consumed gap) {c : Char} (smooth : r.isTrap c = false) :
    (∃ cs, (r.step c).2 = texts cs ∧ (r.step c).1.Follows content consumed (gap ++ [c])) ∨
      ∃ e, (r.step c).2 = [e] ∧ Delivered consumed.length (gap ++ [c]) e ∧
        (r.step c).1.Follows (content.afterEvent e) (consumed ++ (gap ++ [c])) [] := by
  have longer : ∀ n, n = consumed.length + gap.length → n + 1 = consumed.length + (gap ++ [c]).length := by
    rintro _ rfl
    simp [Nat.add_assoc]
  by_cases skipped : c = '\n' ∧ r.afterReturn
  · obtain ⟨rfl, hreturn⟩ := skipped
    have calm := h.calm hreturn
    left
    refine ⟨[], ?_, ?_⟩
    · simp [Reader.step, hreturn, texts]
    · rw [Reader.step, if_pos ⟨rfl, hreturn⟩]
      exact ⟨h.isStage, h.agrees, h.plain, longer _ h.place, follows_newline calm h.follows,
        fun hreturn => absurd hreturn Bool.false_ne_true⟩
  · have hread := readAs c
    have quiet : r.state.isTrap (if c = '\r' then '\n' else c) = false := by
      have skips : (decide (c = '\n') && r.afterReturn) = false := by simpa using skipped
      simpa [Reader.isTrap, skips] using smooth
    have calm : c = '\r' → (r.state.step r.place (if c = '\r' then '\n' else c)).1.IsCalm := by
      rintro rfl
      exact isCalm_step h.plain r.place
    have advances := advances_step h.isStage h.agrees h.plain h.follows hread quiet
    have fits := stepFits h.isStage h.agrees hread.notReturn r.place
    have plain := isPlain_step h.plain r.place (if c = '\r' then '\n' else c)
    have unfolded : r.step c = (⟨(r.state.step r.place (if c = '\r' then '\n' else c)).1, r.place + 1, c = '\r'⟩,
        (r.state.step r.place (if c = '\r' then '\n' else c)).2) := by
      rw [Reader.step, if_neg skipped]
    rw [unfolded]
    rw [← h.place] at advances
    generalize r.state.step r.place (if c = '\r' then '\n' else c) = result at advances fits plain calm
    cases advances with
    | readsOn h' =>
      obtain ⟨⟨cs, hcs⟩, follows⟩ := h'
      left
      refine ⟨cs, hcs, h.isStage, ?_, plain, longer _ h.place, follows, fun hreturn => calm (by simpa using hreturn)⟩
      have agrees := fits.2
      rwa [hcs, afterEvents_texts] at agrees
    | delivers here held delivered =>
      right
      refine ⟨_, rfl, delivered, h.isStage.afterEvent _, fits.2, plain, ?_, ?_,
        fun hreturn => calm (by simpa using hreturn)⟩
      · simpa using longer _ h.place
      · exact follows_free held (.nil _) none

/-! ### Tags -/

/-- A token stands where its tag was read, and has the attributes of that, in their order and with their values. -/
inductive Faithful (source : List Char) : Event → Token → Prop
  | startTag {place : Nat} {name : List Char} {attrs : List (List Char × List Char)} {as : List (String × Option String)}
    (selfClosing : Bool) (begins : source[place]? = some '<') (nodup : (as.map Prod.fst).Nodup)
    (kept : (as.map fun a => (a.1, a.2.getD "")) = attrs.map fun a => (String.ofList a.1, String.ofList a.2)) :
    Faithful source (.startTag place name attrs selfClosing)
      ⟨.startTag (String.ofList name) as selfClosing, past .start (source.take place)⟩
  | endTag {place : Nat} (name : List Char) (begins : source[place]? = some '<') :
    Faithful source (.endTag place name) ⟨.endTag (String.ofList name), past .start (source.take place)⟩

theorem ordered_firsts (as : List (List Char × Option (List Char))) :
    ordered ((firsts as).map readPair) (as.map declaredPair) =
      (firsts as).map fun a => (String.ofList a.1, a.2.map String.ofList) := by
  have sorted : (Follower.sortAttrs ((firsts as).map readPair)).Perm (((firsts as).filter fun _ => true).map readPair) := by
    rw [List.filter_true]
    exact List.mergeSort_perm _ _
  rw [ordered, inDeclaredOrder_firsts as (fun _ => true) sorted, List.filter_true]

theorem filter_texts (cs : List Char) : (texts cs).filter Event.isTag = [] := by
  induction cs with
  | nil => rfl
  | cons c cs ih => exact ih

section Delivery

variable {consumed gap : List Char} {e : Event}

theorem Delivered.after (h : Delivered consumed.length gap e) (rest : List Char) :
    (Cursor.mk (gap ++ rest) (past .start consumed)).after e = ⟨rest, past .start (consumed ++ gap)⟩ := by
  rw [Concrete.past_append]
  cases h with
  | startTag g body selfClosing split found => rw [Cursor.after, found]
  | endTag g body split found => rw [Cursor.after, found]
  | declaration found =>
    simp only [Cursor.after, found]
    exact Concrete.upTo_append gap rest _

theorem Delivered.token (h : Delivered consumed.length gap e) (rest : List Char) :
    List.Forall₂ (Faithful (consumed ++ (gap ++ rest))) ([e].filter Event.isTag)
      ((Cursor.mk (gap ++ rest) (past .start consumed)).token? e).toList := by
  have placed : ∀ g body, gap = g ++ '<' :: body → (consumed ++ (gap ++ rest))[consumed.length + g.length]? = some '<' ∧
      past (past .start consumed) g = past .start ((consumed ++ (gap ++ rest)).take (consumed.length + g.length)) := by
    rintro g body rfl
    have shape : consumed ++ (g ++ '<' :: body ++ rest) = (consumed ++ g) ++ '<' :: (body ++ rest) := by simp
    rw [shape, ← List.length_append, List.take_left, Concrete.past_append]
    exact ⟨by simp, rfl⟩
  cases h with
  | @startTag g body name as selfClosing split found =>
    obtain ⟨begins, position⟩ := placed g body split
    refine .cons ?_ .nil
    rw [found, position, ordered_firsts]
    have distinct : (((firsts as).map Prod.fst).map String.ofList).Nodup :=
      List.Pairwise.map String.ofList (fun _ _ hne he => hne (String.ofList_inj.1 he)) (nodup_firsts as)
    refine .startTag selfClosing begins (by simpa [Function.comp_def] using distinct) ?_
    simp only [List.map_map]
    refine List.map_congr_left fun a _ => Prod.ext rfl ?_
    obtain ⟨n, v⟩ := a
    cases v <;> rfl
  | @endTag g body name split found =>
    obtain ⟨begins, position⟩ := placed g body split
    refine .cons ?_ .nil
    rw [found, position]
    exact .endTag name begins
  | declaration found => exact .nil

end Delivery

theorem forall₂_faithful {content : Content} {consumed gap : List Char} {r : Reader}
    (h : r.Follows content consumed gap) {read : List Char} (smooth : r.isSmooth read) (unread : List Char) :
    List.Forall₂ (Faithful (consumed ++ (gap ++ (read ++ unread)))) ((r.run read).2.filter Event.isTag)
      ((Cursor.mk (gap ++ (read ++ unread)) (past .start consumed)).tokens (r.run read).2) := by
  induction read generalizing content consumed gap r with
  | nil => exact .nil
  | cons c read ih =>
    rw [Reader.isSmooth, Bool.and_eq_true, Bool.not_eq_true'] at smooth
    have shift : gap ++ (c :: read ++ unread) = (gap ++ [c]) ++ (read ++ unread) := by simp
    rw [Reader.run, shift]
    rcases h.step smooth.1 with ⟨cs, hcs, follows⟩ | ⟨e, he, delivered, follows⟩
    · simp only [hcs, Cursor.tokens_texts, List.filter_append, filter_texts, List.nil_append]
      exact ih follows smooth.2
    · have later := ih follows smooth.2
      have token := delivered.token (read ++ unread)
      rw [List.nil_append, List.append_assoc] at later
      simp only [he, List.filter_append]
      rw [List.singleton_append, Cursor.tokens, delivered.after]
      exact List.rel_append token later

/-- Of a source that is read without traps up to some place, the tags that are whole there. -/
theorem faithful_tokens (source : String) {read : List Char} (hread : read <+: source.toList)
    (smooth : Reader.start.isSmooth read) : ∃ ts, ts <+: (tokens source).filter Token.isTag ∧
      List.Forall₂ (Faithful source.toList) ((Reader.start.run read).2.filter Event.isTag) ts := by
  obtain ⟨unread, hunread⟩ := hread
  have tags := forall₂_faithful Reader.follows_start smooth unread
  rw [List.nil_append, List.nil_append, hunread] at tags
  refine ⟨_, ?_, tags⟩
  have whole : ∃ later, events source.toList = (Reader.start.run read).2 ++ later := by
    rw [← hunread, events, Reader.run_append]
    exact ⟨_, List.append_assoc _ _ _⟩
  obtain ⟨later, hlater⟩ := whole
  rw [filter_tokens, hlater, Cursor.tokens_append]
  exact List.prefix_append _ _

theorem filter_finish (s : State) : s.finish.filter Event.isTag = [] := by
  cases s with
  | text here r =>
    cases r with
    | none => rfl
    | some r => exact filter_texts _
  | endName here start letters => exact filter_texts _
  | _ => rfl

theorem faithful_of_isSmooth (source : String) (smooth : Reader.start.isSmooth source.toList) :
    List.Forall₂ (Faithful source.toList) ((events source.toList).filter Event.isTag)
      ((tokens source).filter Token.isTag) := by
  obtain ⟨ts, hts, faithful⟩ := faithful_tokens source (List.prefix_refl _) smooth
  have tags : (events source.toList).filter Event.isTag = (Reader.start.run source.toList).2.filter Event.isTag := by
    rw [events, List.filter_append, filter_finish, List.append_nil]
  have represents := forall₂_represents (lawfulEvents_events source.toList) (within_ofSource source.toList)
  have count : ts.length = ((tokens source).filter Token.isTag).length := by
    rw [← faithful.length_eq, filter_tokens, ← represents.length_eq, tags]
  rw [tags, ← hts.eq_of_length count]
  exact faithful

/-! ### Positions and order -/

/-- The token of a tag stands at the `<` where its tag was read, and the names of its attributes are in the order in which
they first occur there. -/
inductive InStep (source : List Char) : Event → Token → Prop
  | startTag {place : Nat} {name : List Char} {attrs : List (List Char × List Char)} {as : List (String × Option String)}
    (selfClosing : Bool) (begins : source[place]? = some '<')
    (order : as.map Prod.fst = attrs.map fun a => String.ofList a.1) :
    InStep source (.startTag place name attrs selfClosing)
      ⟨.startTag (String.ofList name) as selfClosing, past .start (source.take place)⟩
  | endTag {place : Nat} (name : List Char) (begins : source[place]? = some '<') :
    InStep source (.endTag place name) ⟨.endTag (String.ofList name), past .start (source.take place)⟩

theorem Faithful.inStep {source : List Char} {e : Event} {t : Token} (h : Faithful source e t) : InStep source e t := by
  cases h with
  | startTag selfClosing begins nodup kept =>
    refine .startTag selfClosing begins ?_
    have names := congrArg (List.map Prod.fst) kept
    simpa [Function.comp_def] using names
  | endTag name begins => exact .endTag name begins

/-- As far as a source is read without traps, its tags and their tokens are in step. -/
theorem tags_inStep (source : String) :
    (∀ read, read <+: source.toList → Reader.start.isSmooth read → ∃ ts, ts <+: (tokens source).filter Token.isTag ∧
      List.Forall₂ (InStep source.toList) ((Reader.start.run read).2.filter Event.isTag) ts) ∧
    (Reader.start.isSmooth source.toList → List.Forall₂ (InStep source.toList)
      ((events source.toList).filter Event.isTag) ((tokens source).filter Token.isTag)) := by
  refine ⟨fun read hread smooth => ?_, fun smooth => ?_⟩
  · obtain ⟨ts, hts, faithful⟩ := faithful_tokens source hread smooth
    exact ⟨ts, hts, faithful.imp fun _ _ => Faithful.inStep⟩
  · exact (faithful_of_isSmooth source smooth).imp fun _ _ => Faithful.inStep

/-- A doctype, a comment that holds a tag, a name in capital letters, an attribute twice, text and a script that look like
tags. Past the bogus comment the cursor would not see the last tag. -/
def longPage : String :=
  "<!doctype html><!-- <p a> --><P Class='x > y' class=y\r\n data-n = 1 hidden>1 < 2<br/></>" ++
    "<script>if (a</p) '<p b>'</script></P ></ x><p><!---->"

theorem tags_inStep_longPage :
    let read := longPage.toList.take 126
    let tags : List Event := [
      .startTag 29 "p".toList [("class".toList, "x > y".toList), ("data-n".toList, ['1']), ("hidden".toList, [])] false,
      .startTag 79 "br".toList [] true, .startTag 87 "script".toList [] false, .endTag 112 "script".toList,
      .endTag 121 "p".toList]
    read <+: longPage.toList ∧ Reader.start.isSmooth read = true ∧
      (∃ ts, ts <+: (tokens longPage).filter Token.isTag ∧ List.Forall₂ (InStep longPage.toList) tags ts) ∧
      List.Forall₂ (InStep read) tags ((tokens (String.ofList read)).filter Token.isTag) := by
  intro read tags
  have hread : read <+: longPage.toList := List.take_prefix _ _
  have smooth : Reader.start.isSmooth read = true := by decide +kernel
  have htags : (Reader.start.run read).2.filter Event.isTag = tags := by decide +kernel
  have whole : (events read).filter Event.isTag = tags := by decide +kernel
  have page : (String.ofList read).toList = read := String.toList_ofList
  have first := (tags_inStep longPage).1 read hread smooth
  have second := (tags_inStep (String.ofList read)).2 (page.symm ▸ smooth)
  rw [page, whole] at second
  exact ⟨hread, smooth, htags ▸ first, second⟩

/-- The reader ends the comment at `<!-->`, and the cursor looks for `-->` after that. -/
theorem not_inStep_emptyComment : ¬ List.Forall₂ (InStep "<!--><p><!---->".toList)
    ((events "<!--><p><!---->".toList).filter Event.isTag) ((tokens "<!--><p><!---->").filter Token.isTag) := by
  have tag : (events "<!--><p><!---->".toList).filter Event.isTag = [.startTag 5 ['p'] [] false] := by decide +kernel
  have token : (tokens "<!--><p><!---->").filter Token.isTag = [⟨.startTag "p" [] false, ⟨1, 16⟩⟩] := by decide +kernel
  rw [tag, token]
  intro h
  obtain ⟨step, -⟩ := List.forall₂_cons.1 h
  generalize ht : (Token.mk (.startTag "p" [] false) ⟨1, 16⟩) = t at step
  cases step with
  | startTag selfClosing begins order =>
    have position : (⟨1, 16⟩ : Position) = past .start ("<!--><p><!---->".toList.take 5) := congrArg Token.position ht
    exact absurd position (by decide +kernel)

end Stencil.Markup
