import Stencil.Proofs.Markup.Written

/-! The follower of events, seen from what it yields. An event gives symbols that depend only on the `Trail`: whether a
script is open, and the source after the last tag. The tokens are known from the symbols, as they are never empty or
adjacent texts. -/

namespace Stencil.Markup

/-- The attributes that a start tag of this name declares where it is found, and the text after it. -/
def startAt (name rest : List Char) : List Declared × List Char :=
  match locate ['<'] name rest with
  | some (_, after) => declared after
  | none => ([], rest)

/-- The text after the end tag of this name. -/
def endAt (name rest : List Char) : List Char :=
  match locate ['<', '/'] name rest with
  | some (tag, _) => pastClose tag
  | none => rest

/-- The attributes of an event as a token has them. -/
def ordered (attrs : List (List Char × List Char)) (order : List Declared) : List (String × Option String) :=
  (inDeclaredOrder (Follower.sortAttrs attrs) order).map fun (n, v) => (String.ofList n, v.map String.ofList)

/-! ### Where cursors stop -/

theorem afterName?_suffix {n s r : List Char} (h : afterName? n s = some r) : r <:+ s := by
  fun_induction afterName? n s with
  | case1 s => exact Option.some.inj h ▸ List.suffix_refl _
  | case2 n ns c cs _ ih => exact (ih h).trans (List.suffix_cons c cs)
  | case3 => exact absurd h nofun
  | case4 => exact absurd h nofun

theorem locate_after_suffix {opening name s tag after : List Char} (h : locate opening name s = some (tag, after)) :
    after <:+ tag := by
  induction s with
  | nil => exact absurd h nofun
  | cons c cs ih =>
    unfold locate at h
    split at h
    · next hafter =>
      obtain ⟨rfl, rfl⟩ := Prod.mk.inj (Option.some.inj h)
      exact afterName?_suffix (Option.filter_eq_some_iff.1 hafter).1
    · exact ih h

theorem pastClose_suffix (s : List Char) : pastClose s <:+ s :=
  (List.drop_suffix 1 _).trans (List.dropWhile_suffix _)

theorem pastCommentEnd_suffix (s : List Char) : pastCommentEnd s <:+ s := by
  fun_induction pastCommentEnd s with
  | case1 rest => exact ⟨['-', '-', '>'], rfl⟩
  | case2 c rest _ ih => exact ih.trans (List.suffix_cons c rest)
  | case3 => exact List.suffix_refl _

theorem pastDeclaration?_suffix {s r : List Char} (h : pastDeclaration? s = some r) : r <:+ s := by
  fun_induction pastDeclaration? s with
  | case1 rest => exact Option.some.inj h ▸ (pastCommentEnd_suffix rest).trans ⟨['<', '!', '-', '-'], rfl⟩
  | case2 rest => exact Option.some.inj h ▸ (pastClose_suffix rest).trans ⟨['<', '!'], rfl⟩
  | case3 rest => exact Option.some.inj h ▸ (pastClose_suffix rest).trans ⟨['<', '?'], rfl⟩
  | case4 c rest _ _ _ ih => exact (ih h).trans (List.suffix_cons c rest)
  | case5 => exact absurd h nofun

theorem Cursor.rest_upTo {c : Cursor} {rest : List Char} (h : rest <:+ c.rest) : (c.upTo rest).rest = rest := by
  obtain ⟨before, hbefore⟩ := h
  simp [upTo, forward, ← hbefore]

theorem placeStart_eq (c : Cursor) (name : List Char) :
    (Follower.placeStart c name).2.1 = (startAt name c.rest).1 ∧
      (Follower.placeStart c name).2.2.rest = (startAt name c.rest).2 := by
  unfold Follower.placeStart startAt
  cases h : locate ['<'] name c.rest with
  | none => exact ⟨rfl, rfl⟩
  | some found =>
    obtain ⟨tag, after⟩ := found
    refine ⟨rfl, Cursor.rest_upTo ?_⟩
    rw [Cursor.rest_upTo (locate_suffix h)]
    exact (AttrScan.run_suffix .between after).trans (locate_after_suffix h)

theorem placeEnd_eq (c : Cursor) (name : List Char) : (Follower.placeEnd c name).2.rest = endAt name c.rest := by
  unfold Follower.placeEnd endAt
  cases h : locate ['<', '/'] name c.rest with
  | none => rfl
  | some found =>
    obtain ⟨tag, after⟩ := found
    apply Cursor.rest_upTo
    rw [Cursor.rest_upTo (locate_suffix h)]
    exact pastClose_suffix tag

/-! ### Trails -/

/-- Whether a script or style is open, and the source after the last tag. -/
structure Trail where
  inScript : Bool
  rest : List Char

namespace Trail

def after (t : Trail) : Event → Trail
  | .text _ => t
  | .declaration => { t with rest := (pastDeclaration? t.rest).getD t.rest }
  | .startTag _ name _ selfClosing =>
    ⟨t.inScript || (!selfClosing && (name = "script".toList || name = "style".toList)), (startAt name t.rest).2⟩
  | .endTag _ name => ⟨false, endAt name t.rest⟩

def write (t : Trail) (cs : List Char) : List Char := if t.inScript then cs else escaped cs

def symbols (t : Trail) : Event → List Symbol
  | .text c => chars (t.write [c])
  | .declaration => []
  | .startTag _ name attrs selfClosing =>
    [.tag (.startTag (String.ofList name) (ordered attrs (startAt name t.rest).1) selfClosing)]
  | .endTag _ name => [.tag (.endTag (String.ofList name))]

def trace (t : Trail) : List Event → List Symbol
  | [] => []
  | e :: es => t.symbols e ++ (t.after e).trace es

def run (t : Trail) (es : List Event) : Trail := es.foldl after t

theorem trace_append (t : Trail) (es es' : List Event) : t.trace (es ++ es') = t.trace es ++ (t.run es).trace es' := by
  induction es generalizing t with
  | nil => rfl
  | cons e es ih => simp [trace, ih, run]

theorem run_append (t : Trail) (es es' : List Event) : t.run (es ++ es') = (t.run es).run es' := List.foldl_append

theorem run_texts (t : Trail) (cs : List Char) : t.run (texts cs) = t := by
  induction cs with
  | nil => rfl
  | cons c cs ih => exact ih

theorem write_append (t : Trail) (cs ds : List Char) : t.write (cs ++ ds) = t.write cs ++ t.write ds := by
  unfold write
  split
  · rfl
  · exact List.flatMap_append

theorem trace_texts (t : Trail) (cs : List Char) : t.trace (texts cs) = chars (t.write cs) := by
  induction cs with
  | nil => cases h : t.inScript <;> simp [texts, trace, write, h, escaped, chars]
  | cons c cs ih =>
    rw [show c :: cs = [c] ++ cs from rfl, write_append, chars, List.map_append]
    exact congrArg (chars (t.write [c]) ++ ·) ih

end Trail

namespace Follower

def trail (f : Follower) : Trail := ⟨f.inScript, f.cursor.rest⟩

theorem step_declaration (f : Follower) : ∃ cursor, f.step .declaration = ({ f with cursor }, []) := by
  cases h : pastDeclaration? f.cursor.rest with
  | none => exact ⟨f.cursor, by simp [step, h]⟩
  | some rest => exact ⟨f.cursor.upTo rest, by simp [step, h]⟩

theorem trail_step (f : Follower) (e : Event) : (f.step e).1.trail = f.trail.after e := by
  cases e with
  | text c =>
    unfold step addText
    cases f.gathered <;> rfl
  | declaration =>
    unfold step
    cases h : pastDeclaration? f.cursor.rest with
    | none => simp [trail, Trail.after, h]
    | some rest => simp [trail, Trail.after, h, Cursor.rest_upTo (pastDeclaration?_suffix h)]
  | startTag place name attrs selfClosing => simp [step, trail, Trail.after, (placeStart_eq f.cursor name).2]
  | endTag place name => simp [step, trail, Trail.after, placeEnd_eq f.cursor name]

/-- The gathered text as a kind of token. -/
def pending (f : Follower) : List TokenKind := f.flush.map Token.kind

theorem kinds_startTag (f : Follower) (place : Nat) (name : List Char) (attrs : List (List Char × List Char))
    (selfClosing : Bool) : (f.step (.startTag place name attrs selfClosing)).2.map Token.kind =
      f.pending ++ [.startTag (String.ofList name) (ordered attrs (startAt name f.cursor.rest).1) selfClosing] := by
  simp [step, pending, ordered, (placeStart_eq f.cursor name).1]

theorem kinds_endTag (f : Follower) (place : Nat) (name : List Char) :
    (f.step (.endTag place name)).2.map Token.kind = f.pending ++ [.endTag (String.ofList name)] := by
  simp [step, pending]

theorem symbols_append (ks ls : List TokenKind) : symbols (ks ++ ls) = symbols ks ++ symbols ls := List.flatMap_append

theorem symbols_step (f : Follower) (e : Event) :
    symbols ((f.step e).2.map Token.kind) ++ symbols (f.step e).1.pending =
      symbols f.pending ++ f.trail.symbols e := by
  cases e with
  | text c =>
    have new : (if f.inScript then c.toString else escape c).toList = f.trail.write [c] := by
      cases h : f.inScript <;> simp [trail, Trail.write, h, escaped]
    cases h : f.gathered with
    | none =>
      have pending_new : (f.step (.text c)).1.pending = [.text (if f.inScript then c.toString else escape c)] := by
        simp [step, addText, h, pending, flush]
      have pending_old : f.pending = [] := by simp [pending, flush, h]
      rw [pending_new, pending_old, symbols_text, new]
      simp [step, Trail.symbols, symbols]
    | some gathered =>
      obtain ⟨p, content⟩ := gathered
      have pending_new : (f.step (.text c)).1.pending =
          [.text (content ++ if f.inScript then c.toString else escape c)] := by
        simp [step, addText, h, pending, flush]
      have pending_old : f.pending = [.text content] := by simp [pending, flush, h]
      rw [pending_new, pending_old, symbols_text, symbols_text, String.toList_append, new]
      simp [step, Trail.symbols, symbols, chars]
  | declaration =>
    obtain ⟨cursor, h⟩ := step_declaration f
    simp [h, Trail.symbols, symbols, pending, flush]
  | startTag place name attrs selfClosing =>
    rw [kinds_startTag, symbols_append, List.append_assoc]
    rfl
  | endTag place name =>
    rw [kinds_endTag, symbols_append, List.append_assoc]
    rfl

/-- The tokens of events have their symbols, after those of the gathered text. -/
theorem symbols_run (f : Follower) (es : List Event) :
    symbols ((f.run es).map Token.kind) = symbols f.pending ++ f.trail.trace es ++ [.tag .eof] := by
  induction es generalizing f with
  | nil => simp [run, Trail.trace, pending, symbols, TokenKind.symbols]
  | cons e es ih =>
    rw [run, List.map_append, symbols_append, ih, trail_step, Trail.trace]
    simp only [← List.append_assoc]
    rw [symbols_step]

/-- The gathered text is not empty. -/
def Gathers (f : Follower) : Prop := ∀ p s, f.gathered = some (p, s) → s ≠ ""

theorem escape_ne_empty (c : Char) : escape c ≠ "" := by
  unfold escape
  split
  · decide
  · split
    · decide
    · exact fun h => absurd (congrArg String.toList h) (by simp)

theorem gathers_step {f : Follower} (h : f.Gathers) (e : Event) : (f.step e).1.Gathers := by
  have none : ∀ g : Follower, g.gathered = none → g.Gathers := fun g hg p s hs => by rw [hg] at hs; cases hs
  cases e with
  | text c =>
    have new : (if f.inScript then c.toString else escape c) ≠ "" := by
      split
      · exact fun h => absurd (congrArg String.toList h) (by simp)
      · exact escape_ne_empty c
    intro p s hs
    cases hg : f.gathered with
    | none =>
      simp only [step, addText, hg, Option.some.injEq, Prod.mk.injEq] at hs
      exact hs.2 ▸ new
    | some gathered =>
      simp only [step, addText, hg, Option.some.injEq, Prod.mk.injEq] at hs
      rw [← hs.2]
      exact fun h => new (String.append_eq_empty_iff.1 h).2
  | declaration =>
    obtain ⟨cursor, hstep⟩ := step_declaration f
    rw [hstep]
    exact h
  | startTag place name attrs selfClosing => exact none _ rfl
  | endTag place name => exact none _ rfl

theorem isNormal_pending {f : Follower} (h : f.Gathers) {k : TokenKind} (hk : k.isText = false) {ks : List TokenKind}
    (hks : IsNormal ks) : IsNormal (f.pending ++ k :: ks) := by
  have later : IsNormal (k :: ks) := by
    cases k with
    | text s => exact Bool.noConfusion hk
    | _ => exact hks
  unfold pending flush
  cases hg : f.gathered with
  | none => exact later
  | some gathered => exact ⟨⟨h gathered.1 gathered.2 hg, by rintro _ ⟨⟩; exact hk⟩, later⟩

theorem isNormal_run {f : Follower} (h : f.Gathers) (es : List Event) : IsNormal ((f.run es).map Token.kind) := by
  induction es generalizing f with
  | nil =>
    rw [run, List.map_append]
    exact isNormal_pending h rfl trivial
  | cons e es ih =>
    have later := ih (gathers_step h e)
    rw [run, List.map_append]
    cases e with
    | text c => exact later
    | declaration =>
      obtain ⟨cursor, hstep⟩ := step_declaration f
      rw [hstep] at later ⊢
      exact later
    | startTag place name attrs selfClosing =>
      rw [kinds_startTag, List.append_assoc]
      exact isNormal_pending h rfl later
    | endTag place name =>
      rw [kinds_endTag, List.append_assoc]
      exact isNormal_pending h rfl later

end Follower

def Trail.start (source : List Char) : Trail := ⟨false, source⟩

/-- The tokens of a source are those that have the symbols of its events. -/
theorem kinds_tokens_iff {source : String} {ks : List TokenKind} (hk : IsNormal (ks ++ [.eof])) :
    (tokens source).map Token.kind = ks ++ [.eof] ↔
      (Trail.start source.toList).trace (events source.toList) = symbols ks := by
  have run := Follower.symbols_run (.start source.toList) (events source.toList)
  have normal : IsNormal ((tokens source).map Token.kind) := Follower.isNormal_run (fun _ _ h => by cases h) _
  have whole : symbols ((tokens source).map Token.kind) =
      (Trail.start source.toList).trace (events source.toList) ++ [.tag .eof] := run
  have end_eof : symbols (ks ++ [.eof]) = symbols ks ++ [.tag .eof] := Follower.symbols_append ks [.eof]
  constructor
  · intro h
    rw [h, end_eof] at whole
    exact (List.append_cancel_right whole).symm
  · intro h
    apply symbols_inj normal hk
    rw [whole, h, end_eof]

end Stencil.Markup
