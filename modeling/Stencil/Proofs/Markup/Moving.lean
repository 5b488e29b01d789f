import Stencil.Proofs.Markup.Marks

/-! The cursor from the beginning of a source to the end of its tokens. Counting octets gives the same tokens, without a
slice out of range, and what holds of the cursor after one event holds after all. -/

namespace Stencil.Markup.Offsets

open Octets (size size_append)
open Concrete (past)

/-! ### What holds of the cursor and the tokens -/

def opening? : TokenKind → Option (List Char × List Char)
  | .startTag name _ _ => some (['<'], name.toList)
  | .endTag name => some (['<', '/'], name.toList)
  | _ => none

/-- Where a token was located the source has its tag: what opens it, its name in either case, and something that ends the
name. The position of the token is that place. -/
def Found.BeginsAt (source : List Char) (x : Found) : Prop :=
  ∀ start, x.offset = some start → ∃ opening name before written after, opening? x.token.kind = some (opening, name) ∧
    source = before ++ opening ++ written ++ after ∧ start = size before ∧ x.token.position = past .start before ∧
    written.map Char.toLower = name.map Char.toLower ∧ endsTagName after

namespace Lexer

def positions (l : Lexer) : List Position := l.found.map fun x => x.token.position

/-- Every mark is where a part of the source ends, none comes before an earlier one, and the tokens come in the order of
their positions, up to the cursor. -/
structure Sound (source : List Char) (l : Lexer) : Prop where
  marks : ∀ m ∈ l.mark :: l.earlier, IsMark source m
  forward : (l.mark :: l.earlier).Pairwise fun m n => n.offset ≤ m.offset
  ordered : l.positions.Pairwise fun p q => q ≤ p
  reached : ∀ p ∈ l.positions, p ≤ l.mark.position
  begins : ∀ x ∈ l.found, x.BeginsAt source
  notEnd : ∀ x ∈ l.found, x.token.kind ≠ .eof

variable {source : List Char} {l : Lexer} {c : Cursor}

theorem sound_start : start.Sound source where
  marks m hm := by
    obtain rfl := List.mem_singleton.1 hm
    exact ⟨[], List.nil_prefix, rfl⟩
  forward := List.pairwise_singleton _ _
  ordered := .nil
  reached := nofun
  begins := nofun
  notEnd := nofun

theorem Sound.moved (h : l.Sound source) {m : Mark} (hm : IsMark source m) (hle : l.mark.offset ≤ m.offset) :
    (l.moved m).Sound source where
  marks := List.forall_mem_cons.2 ⟨hm, h.marks⟩
  forward := by
    refine List.pairwise_cons.2 ⟨?_, h.forward⟩
    intro n hn
    rcases List.mem_cons.1 hn with rfl | hn
    · exact hle
    · exact (List.rel_of_pairwise_cons h.forward hn).trans hle
  ordered := h.ordered
  reached p hp := Position.le_trans (h.reached p hp) ((h.marks _ List.mem_cons_self).position_le hm hle)
  begins := h.begins
  notEnd := h.notEnd

theorem Sound.withScript (h : l.Sound source) (b : Bool) : { l with inScript := b }.Sound source :=
  ⟨h.marks, h.forward, h.ordered, h.reached, h.begins, h.notEnd⟩

theorem Sound.push (h : l.Sound source) {x : Found} (later : ∀ p ∈ l.positions, p ≤ x.token.position)
    (reached : x.token.position ≤ l.mark.position) (begins : x.BeginsAt source) (notEnd : x.token.kind ≠ .eof) :
    (l.push x).Sound source :=
  ⟨h.marks, h.forward, List.pairwise_cons.2 ⟨later, h.ordered⟩, List.forall_mem_cons.2 ⟨reached, h.reached⟩,
    List.forall_mem_cons.2 ⟨begins, h.begins⟩, List.forall_mem_cons.2 ⟨notEnd, h.notEnd⟩⟩

/-- A token at the cursor that was not located. -/
theorem Sound.pushHere (h : l.Sound source) {kind : TokenKind} (notEnd : kind ≠ .eof) :
    (l.push ⟨⟨kind, l.mark.position⟩, none⟩).Sound source :=
  h.push h.reached (Position.le_refl _) nofun notEnd

theorem Sound.addText (h : l.Sound source) (text : String) : (l.addText text).Sound source := by
  unfold Lexer.addText
  split
  · next s p o found hfound =>
    have same : l.positions = p :: found.map fun x => x.token.position := by rw [positions, hfound]; rfl
    obtain ⟨hmarks, hforward, hordered, hreached, hbegins, hnotEnd⟩ := h
    rw [hfound, List.forall_mem_cons] at hbegins hnotEnd
    rw [same] at hordered hreached
    refine ⟨hmarks, hforward, hordered, hreached, List.forall_mem_cons.2 ⟨?_, hbegins.2⟩,
      List.forall_mem_cons.2 ⟨nofun, hnotEnd.2⟩⟩
    -- a text is never located
    intro start hstart
    obtain ⟨_, _, _, _, _, hopening, -⟩ := hbegins.1 start hstart
    cases hopening
  · exact h.pushHere nofun

end Lexer

/-! ### One event -/

theorem beginsAt_of_locate {source : List Char} {c : Cursor} (h : c.Within source) {opening name tag after : List Char}
    (signs : AreSigns opening) (hl : Markup.locate opening name c.rest = some (tag, after)) {kind : TokenKind}
    (hkind : opening? kind = some (opening, name)) :
    Found.BeginsAt source ⟨⟨kind, (c.upTo tag).position⟩, some (offsetOf source tag)⟩ := by
  rintro start hstart
  obtain rfl := Option.some.inj hstart
  obtain ⟨before, hsource, hposition⟩ := Cursor.within_upTo h (locate_suffix hl)
  rw [Cursor.rest_upTo (locate_suffix hl)] at hsource
  obtain ⟨written, htag, hname, hends⟩ := parts_of_locate signs hl
  refine ⟨opening, name, before, written, after, hkind, ?_, ?_, hposition, hname, hends⟩
  · rw [hsource, htag, List.append_assoc, List.append_assoc, List.append_assoc]
  · rw [hsource, offsetOf_append]

variable {source : List Char} {l : Lexer} {c : Cursor} {f : Follower} {done : List Token}

/-- The cursor moves to a tag and then past it. -/
theorem within_past (h : c.Within source) {tag stop : List Char} (htag : tag <:+ c.rest) (hstop : stop <:+ tag) :
    ((c.upTo tag).upTo stop).Within source ∧
      (markOf source (c.upTo tag)).offset ≤ (markOf source ((c.upTo tag).upTo stop)).offset := by
  have opened := Cursor.within_upTo h htag
  have behind : stop <:+ (c.upTo tag).rest := by rwa [Cursor.rest_upTo htag]
  exact ⟨Cursor.within_upTo opened behind, offset_markOf_le opened behind⟩

theorem Lexer.Sound.tag (hs : l.Sound source) (h : c.Within source) (hl : l.mark = markOf source c) {tag stop : List Char}
    (htag : tag <:+ c.rest) (hstop : stop <:+ tag) (inScript : Bool) {kind : TokenKind} (notEnd : kind ≠ .eof)
    (begins : Found.BeginsAt source ⟨⟨kind, (c.upTo tag).position⟩, some (offsetOf source tag)⟩) :
    ({ (l.moved (markOf source (c.upTo tag))).moved (markOf source ((c.upTo tag).upTo stop)) with inScript }.push
      ⟨⟨kind, (c.upTo tag).position⟩, some (offsetOf source tag)⟩).Sound source := by
  have opened := Cursor.within_upTo h htag
  obtain ⟨closed, forward⟩ := within_past h htag hstop
  have first := hs.moved (isMark_markOf opened) (hl ▸ offset_markOf_le h htag)
  have second := first.moved (isMark_markOf closed) forward
  exact (second.withScript inScript).push first.reached ((isMark_markOf opened).position_le (isMark_markOf closed) forward)
    begins notEnd

theorem reverse_flush (f : Follower) : f.flush.reverse = f.flush := by
  unfold Follower.flush
  split <;> rfl

/-- The lexer stands where the follower does, and has the tokens that are done and the text that is gathered. -/
structure Agrees (source : List Char) (l : Lexer) (f : Follower) (done : List Token) : Prop where
  within : f.cursor.Within source
  mark : l.mark = markOf source f.cursor
  inScript : l.inScript = f.inScript
  found : l.found.map Found.token = f.flush ++ done.reverse
  apart : f.gathered = none → ∀ t ∈ done.getLast?, t.kind.isText = false

def Steps (source : List Char) (l : Lexer) (f : Follower) (done : List Token) (e : Event) : Prop :=
  ∃ l', l.step source e = some l' ∧ l'.Sound source ∧ Agrees source l' (f.step e).1 (done ++ (f.step e).2)

theorem Lexer.addText_of_text {s : String} {p : Position} {o : Option Nat} {found : List Found}
    (h : l.found = ⟨⟨.text s, p⟩, o⟩ :: found) (text : String) :
    l.addText text = { l with found := ⟨⟨.text (s ++ text), p⟩, o⟩ :: found } := by
  rw [addText, h]

theorem Lexer.addText_of_not_text (h : ∀ x ∈ l.found.head?, x.token.kind.isText = false) (text : String) :
    l.addText text = l.push ⟨⟨.text text, l.mark.position⟩, none⟩ := by
  unfold addText
  split
  · next hfound =>
    rw [hfound] at h
    cases h _ rfl
  · rfl

theorem steps_text (hs : l.Sound source) (h : Agrees source l f done) (d : Char) : Steps source l f done (.text d) := by
  refine ⟨_, rfl, hs.addText _, ?_⟩
  obtain ⟨hwithin, hmark, hscript, hfound, hapart⟩ := h
  have position : l.mark.position = f.cursor.position := congrArg Mark.position hmark
  rw [hscript, Follower.step, Follower.addText, List.append_nil]
  generalize (if f.inScript then d.toString else Follower.escape d) = text
  cases hg : f.gathered with
  | some gathered =>
    obtain ⟨p, s⟩ := gathered
    rw [Follower.flush, hg, List.singleton_append] at hfound
    obtain ⟨x, found, hl, hx, hrest⟩ := List.map_eq_cons_iff.1 hfound
    obtain ⟨token, o⟩ := x
    obtain rfl : token = ⟨.text s, p⟩ := hx
    rw [Lexer.addText_of_text hl]
    exact ⟨hwithin, hmark, hscript, congrArg _ hrest, fun hnone => by cases hnone⟩
  | none =>
    rw [Follower.flush, hg, List.nil_append] at hfound
    have noText : ∀ x ∈ l.found.head?, x.token.kind.isText = false := by
      intro x hx
      apply hapart hg
      rw [List.getLast?_eq_head?_reverse, ← hfound, List.head?_map, hx]
      rfl
    rw [Lexer.addText_of_not_text noText, position]
    exact ⟨hwithin, hmark, hscript, congrArg _ hfound, fun hnone => by cases hnone⟩

theorem steps_declaration (hs : l.Sound source) (h : Agrees source l f done) : Steps source l f done .declaration := by
  refine ⟨_, skipDeclaration_at h.within h.mark, ?_⟩
  obtain ⟨hwithin, hmark, hscript, hfound, hapart⟩ := h
  rw [Follower.step]
  cases hd : pastDeclaration? f.cursor.rest with
  | none =>
    rw [List.append_nil]
    exact ⟨hs, hwithin, hmark, hscript, hfound, hapart⟩
  | some rest =>
    have moves := pastDeclaration?_suffix hd
    have later := Cursor.within_upTo hwithin moves
    have forward : l.mark.offset ≤ (markOf source (f.cursor.upTo rest)).offset := hmark ▸ offset_markOf_le hwithin moves
    rw [List.append_nil]
    exact ⟨hs.moved (isMark_markOf later) forward, later, rfl, hscript, hfound, hapart⟩

theorem Agrees.tag (h : Agrees source l f done) {l' : Lexer} {t : Token} {o : Option Nat} {inScript : Bool}
    (within : c.Within source) (mark : l'.mark = markOf source c) (script : l'.inScript = inScript)
    (found : l'.found = ⟨t, o⟩ :: l.found) (notText : t.kind.isText = false) :
    Agrees source l' ⟨c, inScript, none⟩ (done ++ (f.flush ++ [t])) where
  within := within
  mark := mark
  inScript := script
  found := by rw [found, List.map_cons, h.found, List.reverse_append, List.reverse_append, reverse_flush]; rfl
  apart _ u hu := by
    rw [← List.append_assoc, List.getLast?_concat] at hu
    obtain rfl := Option.some.inj hu
    exact notText

theorem steps_startTag (hs : l.Sound source) (h : Agrees source l f done) (place : Nat) (name : List Char)
    (attrs : List (List Char × List Char)) (selfClosing : Bool) :
    Steps source l f done (.startTag place name attrs selfClosing) := by
  have position : l.mark.position = f.cursor.position := congrArg Mark.position h.mark
  refine ⟨_, addStartTag_at h.within h.mark name attrs selfClosing, ?_⟩
  rw [Follower.step, Follower.placeStart, h.inScript]
  cases hl : Markup.locate ['<'] name f.cursor.rest with
  | none =>
    dsimp only
    exact ⟨position ▸ (hs.withScript _).pushHere (by simp), h.tag h.within h.mark rfl rfl rfl⟩
  | some found =>
    obtain ⟨tag, after⟩ := found
    have tagIn := locate_suffix hl
    have behind := (AttrScan.run_suffix .between after).trans (locate_after_suffix hl)
    have kind : opening? (.startTag (String.ofList name) (ordered attrs (declared after).1) selfClosing) =
        some (['<'], name) := by rw [opening?, String.toList_ofList]
    have begins := beginsAt_of_locate h.within areSigns_start hl kind
    have closed := (within_past h.within tagIn behind).1
    exact ⟨hs.tag h.within h.mark tagIn behind _ (by simp) begins, h.tag closed rfl rfl rfl rfl⟩

theorem steps_endTag (hs : l.Sound source) (h : Agrees source l f done) (place : Nat) (name : List Char) :
    Steps source l f done (.endTag place name) := by
  have position : l.mark.position = f.cursor.position := congrArg Mark.position h.mark
  refine ⟨_, addEndTag_at h.within h.mark name, ?_⟩
  rw [Follower.step, Follower.placeEnd]
  cases hl : Markup.locate ['<', '/'] name f.cursor.rest with
  | none =>
    dsimp only
    exact ⟨position ▸ (hs.withScript _).pushHere (by simp), h.tag h.within h.mark rfl rfl rfl⟩
  | some found =>
    obtain ⟨tag, after⟩ := found
    have tagIn := locate_suffix hl
    have behind := pastClose_suffix tag
    have kind : opening? (.endTag (String.ofList name)) = some (['<', '/'], name) := by rw [opening?, String.toList_ofList]
    have begins := beginsAt_of_locate h.within areSigns_end hl kind
    have closed := (within_past h.within tagIn behind).1
    exact ⟨hs.tag h.within h.mark tagIn behind _ (by simp) begins, h.tag closed rfl rfl rfl rfl⟩

theorem steps (hs : l.Sound source) (h : Agrees source l f done) (e : Event) : Steps source l f done e := by
  cases e with
  | text d => exact steps_text hs h d
  | declaration => exact steps_declaration hs h
  | startTag place name attrs selfClosing => exact steps_startTag hs h place name attrs selfClosing
  | endTag place name => exact steps_endTag hs h place name

/-! ### All events -/

/-- Events one after the other never take a slice that is out of range, and leave what the follower yields. -/
theorem exists_foldlM (hs : l.Sound source) (h : Agrees source l f done) (es : List Event) :
    ∃ l', es.foldlM (Lexer.step source) l = some l' ∧ l'.Sound source ∧
      (l'.found.map Found.token).reverse ++ [⟨.eof, l'.mark.position⟩] = done ++ f.run es := by
  induction es generalizing l f done with
  | nil =>
    have position : l.mark.position = f.cursor.position := congrArg Mark.position h.mark
    refine ⟨l, rfl, hs, ?_⟩
    rw [h.found, List.reverse_append, reverse_flush, List.reverse_reverse, Follower.run, position, List.append_assoc]
  | cons e es ih =>
    obtain ⟨l₁, hstep, hs₁, h₁⟩ := steps hs h e
    obtain ⟨l₂, hrun, hs₂, htokens⟩ := ih hs₁ h₁
    refine ⟨l₂, ?_, hs₂, ?_⟩
    · rw [List.foldlM_cons, hstep]
      exact hrun
    · rw [htokens, List.append_assoc]
      rfl

/-- A place in a source: what comes before it is as many octets long as its offset says, has a newline for each line but the
first, and ends with as many characters after the last newline as its column says. -/
def Mark.IsPlace (source : List Char) (m : Mark) : Prop :=
  ∃ before rest, source = before ++ rest ∧ m.offset = size before ∧ m.offset ≤ size source ∧
    m.position.line = 1 + before.count '\n' ∧ m.position.column = 1 + (lastLine before).length

theorem IsMark.isPlace {m : Mark} (h : IsMark source m) : m.IsPlace source := by
  obtain ⟨before, ⟨rest, rfl⟩, rfl⟩ := h
  refine ⟨before, rest, rfl, rfl, ?_, line_past before, column_past before⟩
  rw [size_append]
  exact Nat.le_add_right _ _

/-- Of every source, tokens are made with a cursor that counts octets, without a slice that is out of range. Wherever the
cursor is, that is a place in the source, and it never goes back. The tokens come in the order of their positions, the end
last; and where a tag was located, the source has it. -/
theorem cursor_isPlace (source : String) :
    ∃ l, Lexer.run source.toList (events source.toList) = some l ∧ l.tokens = tokens source ∧
      (∀ m ∈ l.marks, m.IsPlace source.toList) ∧ l.marks.Pairwise (fun m n => m.offset ≤ n.offset) ∧
      (tokens source).Pairwise (fun t u => t.position ≤ u.position) ∧
      (∃ body, tokens source = body ++ [⟨.eof, l.mark.position⟩] ∧ ∀ t ∈ body, t.kind ≠ .eof) ∧
      ∀ x ∈ l.found, x.BeginsAt source.toList := by
  have agrees : Agrees source.toList .start (.start source.toList) [] := by
    have zero : offsetOf source.toList source.toList = 0 := Nat.sub_self _
    exact ⟨within_ofSource source.toList, congrArg (Mark.mk · .start) zero.symm, rfl, rfl, nofun⟩
  obtain ⟨l, hrun, hs, htokens⟩ := exists_foldlM Lexer.sound_start agrees (events source.toList)
  have whole : tokens source = (l.found.map Found.token).reverse ++ [⟨.eof, l.mark.position⟩] := htokens.symm
  have made : (l.push ⟨⟨.eof, l.mark.position⟩, none⟩).tokens = tokens source := by
    rw [whole]
    exact List.reverse_cons
  refine ⟨l.push ⟨⟨.eof, l.mark.position⟩, none⟩, ?_, made, ?_, ?_, ?_, ?_, ?_⟩
  · rw [Lexer.run, hrun]
    rfl
  · intro m hm
    exact (hs.marks m (List.mem_reverse.1 hm)).isPlace
  · exact List.pairwise_reverse.2 hs.forward
  · have ordered : ((l.push ⟨⟨.eof, l.mark.position⟩, none⟩).positions).Pairwise fun p q => q ≤ p :=
      List.pairwise_cons.2 ⟨hs.reached, hs.ordered⟩
    rw [← made, Lexer.tokens, List.pairwise_reverse, List.pairwise_map]
    exact List.pairwise_map.1 ordered
  · refine ⟨_, whole, ?_⟩
    intro t ht
    obtain ⟨x, hx, rfl⟩ := List.mem_map.1 (List.mem_reverse.1 ht)
    exact hs.notEnd x hx
  · exact List.forall_mem_cons.2 ⟨nofun, hs.begins⟩

/-- Letters of two octets before a tag and in it. -/
example : (Lexer.run "\u00e9\n<P>\u00fc</p>".toList (events "\u00e9\n<P>\u00fc</p>".toList)).map
    (fun l => l.marks.map Mark.offset) = some [0, 3, 6, 8, 12] := by decide +kernel

end Stencil.Markup.Offsets
