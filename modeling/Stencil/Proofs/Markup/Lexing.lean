import Stencil.Proofs.Markup.Concrete.Placing

/-! Lexing hand-written markup gives the tokens that its pieces stand for. The reader, the scan of attributes and the
cursor go over the same source one after the other; between two pieces the cursor has left at most text behind it,
which holds no tag. -/

namespace Stencil.Markup.Concrete

/-! ### Joined texts -/

theorem joinTexts_text (s t : String) (p q : Position) (ts : List Token) :
    joinTexts (⟨.text s, p⟩ :: ⟨.text t, q⟩ :: ts) = joinTexts (⟨.text (s ++ t), p⟩ :: ts) := by
  simp only [joinTexts]
  rcases joinTexts ts with _ | ⟨⟨kind, r⟩, us⟩
  · rfl
  · cases kind <;> simp [String.append_assoc]

theorem joinTexts_other {k : TokenKind} (hk : k.isText = false) (p : Position) (ts : List Token) :
    joinTexts (⟨k, p⟩ :: ts) = ⟨k, p⟩ :: joinTexts ts := by
  cases k with
  | text s => exact Bool.noConfusion hk
  | _ => rfl

theorem joinTexts_flush (f : Follower) {k : TokenKind} (hk : k.isText = false) (p : Position) (ts : List Token) :
    joinTexts (f.flush ++ ⟨k, p⟩ :: ts) = f.flush ++ ⟨k, p⟩ :: joinTexts ts := by
  unfold Follower.flush
  split
  · rw [List.singleton_append, joinTexts, joinTexts_other hk]
    cases k with
    | text s => exact Bool.noConfusion hk
    | _ => rfl
  · exact joinTexts_other hk p ts

/-! ### The end -/

theorem rdropWhile_cons {α : Type} (b : α → Bool) (x : α) (xs : List α) :
    (x :: xs).rdropWhile b = if xs.all b then (if b x then [] else [x]) else x :: xs.rdropWhile b := by
  have whole : (xs.reverse.dropWhile b).isEmpty = xs.all b := by
    rw [Bool.eq_iff_iff, List.isEmpty_iff, List.dropWhile_eq_nil_iff, List.all_eq_true]
    simp
  rw [List.rdropWhile, List.rdropWhile, List.reverse_cons, List.dropWhile_append, whole]
  by_cases hall : xs.all b
  · by_cases hx : b x <;> simp [hall, hx]
  · simp [hall]

/-- Where the last tag or declaration ends, if there is one in the pieces that begin at `q`, and else `e`. -/
def endFrom (e q : Position) (xs : List Piece) : Position := if xs.all Piece.isText then e else lastEnd q xs

theorem endFrom_nil (e q : Position) : endFrom e q [] = e := rfl

theorem endFrom_text (e q : Position) {x : Piece} (hx : x.isText) (xs : List Piece) :
    endFrom e q (x :: xs) = endFrom e (past q x.written) xs := by
  unfold endFrom lastEnd
  rw [List.all_cons, hx, Bool.true_and, rdropWhile_cons]
  split
  · rfl
  · next hall => rw [written, List.flatMap_cons, past_append]; rfl

theorem endFrom_other (e q : Position) {x : Piece} (hx : x.isText = false) (xs : List Piece) :
    endFrom e q (x :: xs) = endFrom (past q x.written) (past q x.written) xs := by
  unfold endFrom lastEnd
  rw [List.all_cons, hx, Bool.false_and, rdropWhile_cons, if_neg Bool.false_ne_true]
  split
  · simp [hx, written]
  · rw [written, List.flatMap_cons, past_append]; rfl

theorem endFrom_self (q : Position) (xs : List Piece) : endFrom q q xs = lastEnd q xs := by
  unfold endFrom
  split
  · next hall =>
    have none : xs.rdropWhile Piece.isText = [] := List.rdropWhile_eq_nil_iff.2 (List.all_eq_true.1 hall)
    rw [lastEnd, none]
    rfl
  · rfl

/-! ### Following -/

/-- The follower stands before `rest`, which begins at `q`. Text that has been gathered may be left behind. -/
structure Before (f : Follower) (q : Position) (rest : List Char) : Prop where
  notScript : f.inScript = false
  behind : ∃ text, f.cursor.rest = text ++ rest ∧ '<' ∉ text ∧ past f.cursor.position text = q ∧
    (f.gathered = none → text = [])

/-- The text that is being gathered where text begins at `q`. -/
def gatheredFrom (f : Follower) (q : Position) : Position × String := f.gathered.getD (q, "")

theorem joinTexts_gathered (f : Follower) (q : Position) (s : String) (ts : List Token) :
    joinTexts (f.flush ++ ⟨.text s, q⟩ :: ts) =
      joinTexts (⟨.text ((gatheredFrom f q).2 ++ s), (gatheredFrom f q).1⟩ :: ts) := by
  unfold Follower.flush gatheredFrom
  cases f.gathered with
  | none => simp
  | some g => exact joinTexts_text _ _ _ _ _

/-- Text that is added to what is being gathered. -/
def gather (f : Follower) (cs : List Char) : Follower :=
  let g := gatheredFrom f f.cursor.position
  { f with gathered := some (g.1, g.2 ++ String.ofList (escaped cs)) }

theorem gather_cons {f : Follower} (hf : f.inScript = false) (c : Char) (cs : List Char) :
    gather (f.addText c) cs = gather f (c :: cs) := by
  cases h : f.gathered <;>
    simp [gather, Follower.addText, gatheredFrom, h, hf, escaped, String.append_assoc, String.ofList_append]

theorem addText_eq {f : Follower} (hf : f.inScript = false) (c : Char) : f.addText c = gather f [c] := by
  cases h : f.gathered <;> simp [gather, Follower.addText, gatheredFrom, h, hf, escaped]

theorem run_texts {f : Follower} (hf : f.inScript = false) {cs : List Char} (hcs : cs ≠ []) (es : List Event) :
    f.run (texts cs ++ es) = (gather f cs).run es := by
  induction cs generalizing f with
  | nil => exact absurd rfl hcs
  | cons c cs ih =>
    have first : f.run (texts (c :: cs) ++ es) = (f.addText c).run (texts cs ++ es) := rfl
    rw [first]
    by_cases hcs : cs = []
    · rw [hcs, addText_eq hf]
      rfl
    · rw [ih _ hcs, gather_cons hf]
      cases h : f.gathered <;> simp [Follower.addText, h, hf]

theorem before_of_cursor {f : Follower} {q : Position} {rest : List Char} (hf : f.inScript = false)
    (hc : f.cursor = ⟨rest, q⟩) : Before f q rest where
  notScript := hf
  behind := ⟨[], by simp [hc], List.not_mem_nil, by rw [hc]; rfl, fun _ => rfl⟩

theorem notMem_written (parts : List TextPart) : '<' ∉ parts.flatMap TextPart.written := by
  intro h
  obtain ⟨part, -, h⟩ := List.mem_flatMap.1 h
  cases part with
  | plain c legal => exact legal (List.mem_singleton.1 h ▸ by simp)
  | _ => exact absurd h (by decide)

section Steps

variable {f : Follower} {q : Position} {rest : List Char}

/-- Text that begins to be gathered begins where the follower stands. -/
theorem Before.gatheredFrom_eq (h : Before f q rest) : gatheredFrom f q = gatheredFrom f f.cursor.position := by
  obtain ⟨text, -, -, hpast, fresh⟩ := h.behind
  unfold gatheredFrom
  cases hg : f.gathered with
  | none => rw [← hpast, fresh hg]; rfl
  | some g => rfl

theorem Before.gather {parts : List TextPart} (h : Before f q (parts.flatMap TextPart.written ++ rest))
    (cs : List Char) : Before (gather f cs) (past q (parts.flatMap TextPart.written)) rest where
  notScript := h.notScript
  behind := by
    obtain ⟨text, hrest, htext, hpast, -⟩ := h.behind
    refine ⟨text ++ parts.flatMap TextPart.written, ?_, ?_, ?_, nofun⟩
    · rw [List.append_assoc]
      exact hrest
    · rw [List.mem_append, not_or]
      exact ⟨htext, notMem_written parts⟩
    · rw [past_append, ← hpast]
      rfl

theorem Before.step_declaration {d : Declaration} (h : Before f q (d.written ++ rest)) :
    f.step .declaration = ({ f with cursor := ⟨rest, past q d.written⟩ }, []) := by
  obtain ⟨⟨before, p⟩, inScript, gathered⟩ := f
  obtain ⟨text, rfl, htext, rfl, -⟩ := h.behind
  simp only [Follower.step, pastDeclaration?_written htext]
  rw [← List.append_assoc, upTo_append, past_append]

theorem Before.step_startTag {t : StartTag} (h : Before f q (t.written ++ rest)) (place : Nat) :
    f.step (t.event place) = (⟨⟨rest, past q t.written⟩, false, none⟩, f.flush ++ [⟨t.kind, q⟩]) := by
  have markup := isScript_ofStartTag t.name.lowered t.selfClosing
  rw [t.content_eq] at markup
  have notScript := h.notScript
  obtain ⟨⟨before, p⟩, inScript, gathered⟩ := f
  obtain ⟨text, rfl, htext, rfl, -⟩ := h.behind
  obtain rfl : inScript = false := notScript
  simp only [StartTag.event, Follower.step, placeStart_written htext, past_append, ← ordered_written t, ← markup]
  rfl

theorem Before.step_endTag {t : EndTag} (h : Before f q (t.written ++ rest)) (place : Nat) :
    f.step (.endTag place t.name.lowered) = (⟨⟨rest, past q t.written⟩, false, none⟩,
      f.flush ++ [⟨.endTag (String.ofList t.name.lowered), q⟩]) := by
  obtain ⟨⟨before, p⟩, inScript, gathered⟩ := f
  obtain ⟨text, rfl, htext, rfl, -⟩ := h.behind
  simp only [Follower.step, placeEnd_written htext, past_append]

theorem run_tag {f' : Follower} {e : Event} {k : TokenKind} (hk : k.isText = false)
    (step : f.step e = (f', f.flush ++ [⟨k, q⟩])) {es : List Event} {ts last : List Token}
    (later : f'.run es = joinTexts (f'.flush ++ ts) ++ last) (fresh : f'.gathered = none) :
    f.run (e :: es) = joinTexts (f.flush ++ ⟨k, q⟩ :: ts) ++ last := by
  have nothing : f'.flush = [] := by rw [Follower.flush, fresh]
  rw [nothing, List.nil_append] at later
  simp only [Follower.run, step, later, joinTexts_flush f hk, List.append_assoc, List.cons_append, List.nil_append]

end Steps

theorem inToken_eq_escaped (parts : List TextPart) :
    parts.flatMap TextPart.inToken = escaped (parts.map TextPart.char) := by
  rw [escaped, List.flatMap_map, List.flatMap_def, List.flatMap_def, List.map_congr_left]
  exact fun part _ => part.inToken_eq

/-- The tokens of what is read of pieces, for a follower that stands before them. -/
theorem run_events {f : Follower} {q : Position} {xs : List Piece} (h : Before f q (written xs)) (place : Nat) :
    f.run (eventsFrom place xs) =
      joinTexts (f.flush ++ tokensFrom q xs) ++ [⟨.eof, endFrom f.cursor.position q xs⟩] := by
  induction xs generalizing f q place with
  | nil =>
    rw [eventsFrom, Follower.run, tokensFrom, List.append_nil, endFrom_nil]
    unfold Follower.flush
    split <;> rfl
  | cons x xs ih =>
    cases x with
    | text parts =>
      rw [endFrom_text _ _ rfl, eventsFrom, Piece.events]
      -- the cursor stays where it is, so that the text is left behind it
      cases parts with
      | nil => exact ih h _
      | cons part parts =>
        have flush : ∀ cs, (gather f cs).flush = [⟨.text ((gatheredFrom f f.cursor.position).2 ++
          String.ofList (escaped cs)), (gatheredFrom f f.cursor.position).1⟩] := fun cs => rfl
        have tokens : tokensFrom q (.text (part :: parts) :: xs) =
            ⟨.text (String.ofList ((part :: parts).flatMap TextPart.inToken)), q⟩ :: tokensFrom _ xs := rfl
        rw [run_texts h.notScript (by simp), ih (h.gather _), flush, tokens, joinTexts_gathered, h.gatheredFrom_eq,
          inToken_eq_escaped]
        rfl
    | declaration d =>
      have cursor := before_of_cursor (f := { f with cursor := ⟨written xs, past q d.written⟩ }) h.notScript rfl
      rw [eventsFrom, Piece.events, List.singleton_append, Follower.run, h.step_declaration, endFrom_other _ _ rfl]
      exact ih cursor _
    | startTag t =>
      have cursor := before_of_cursor (f := ⟨⟨written xs, past q t.written⟩, false, none⟩) rfl rfl
      rw [endFrom_other _ _ rfl]
      exact run_tag rfl (h.step_startTag place) (ih cursor _) rfl
    | endTag t =>
      have cursor := before_of_cursor (f := ⟨⟨written xs, past q t.written⟩, false, none⟩) rfl rfl
      rw [endFrom_other _ _ rfl]
      exact run_tag rfl (h.step_endTag place) (ih cursor _) rfl

/-- The tokens of hand-written markup are those that it stands for. -/
theorem tokens_written (xs : List Piece) : tokens (String.ofList (written xs)) = meaning xs := by
  have start : Before (Follower.start (written xs)) .start (written xs) := before_of_cursor rfl rfl
  rw [tokens, String.toList_ofList, events_written, run_events start 0, meaning, ← endFrom_self]
  rfl

/-- A doctype, a start tag whose second `class` is passed over, text around a comment that holds a tag, the end tag in
small letters, and a tag that closes itself. -/
def page : List Piece :=
  let name (c : Char) (cs : List Char) (h : c.isAlpha ∧ cs.all inName) : Name := ⟨c, cs, h.1, h.2⟩
  let space : Blanks := ⟨[' '], by decide⟩
  let nothing : Blanks := ⟨[], by decide⟩
  let attrs : List Attr := [
    ⟨space, by decide, name 'C' ['l', 'a', 's', 's'] (by decide),
      some ⟨nothing, nothing, ⟨.double, ['a', ' ', '>', ' ', 'b'], by decide, nofun⟩⟩⟩,
    ⟨⟨['\n', '\t'], by decide⟩, by decide, name 'c' ['l', 'a', 's', 's'] (by decide),
      some ⟨nothing, nothing, ⟨.single, ['<', 'p', '>'], by decide, nofun⟩⟩⟩,
    ⟨space, by decide, name 'd' ['a', 't', 'a', '-', 'n'] (by decide),
      some ⟨space, space, ⟨.unquoted, ['1', '/', '2'], by decide, fun _ => by decide⟩⟩⟩,
    ⟨space, by decide, name 'h' ['i', 'd', 'd', 'e', 'n'] (by decide), none⟩]
  [.declaration (.doctype [' ', 'h', 't', 'm', 'l'] (by decide)),
    .text [.plain '\n' (by decide)],
    .startTag ⟨name 'P' [] (by decide), by decide +kernel, attrs, space, false, nofun⟩,
    .text [.plain 'é' (by decide), .amp, .gt],
    .declaration (.comment ['<', '/', 'p', '>'] ⟨by decide, by decide, by decide, by decide⟩),
    .text [.plain 'b' (by decide)],
    .endTag ⟨name 'p' [] (by decide), space⟩,
    .startTag ⟨name 'b' ['r'] (by decide), by decide +kernel, [], nothing, true, fun _ _ => rfl⟩,
    .text [.plain '\n' (by decide)]]

theorem tokens_page :
    tokens "<!DOCTYPE html>\n<P Class=\"a > b\"\n\tclass='<p>' data-n = 1/2 hidden >é&amp;&gt;<!--</p>-->b</p ><br/>\n" =
      [⟨.text "\n", ⟨1, 16⟩⟩,
        ⟨.startTag "p" [("class", some "a > b"), ("data-n", some "1/2"), ("hidden", none)] false, ⟨2, 1⟩⟩,
        ⟨.text "é&amp;>b", ⟨3, 35⟩⟩, ⟨.endTag "p", ⟨3, 57⟩⟩, ⟨.startTag "br" [] true, ⟨3, 62⟩⟩,
        ⟨.text "\n", ⟨3, 67⟩⟩, ⟨.eof, ⟨3, 67⟩⟩] := by
  have source : String.ofList (written page) =
      "<!DOCTYPE html>\n<P Class=\"a > b\"\n\tclass='<p>' data-n = 1/2 hidden >é&amp;&gt;<!--</p>-->b</p ><br/>\n" := by
    decide +kernel
  rw [← source, tokens_written]
  decide +kernel

end Stencil.Markup.Concrete
