import Stencil.Proofs.Markup.Losses

/-! Which printed trees are read back as they are: exactly those that keep everything and whose start tags are found with
their attributes. -/

namespace Stencil.Markup

/-! ### One token -/

theorem mem_of_mem_escaped {c : Char} {t : List Char} (h : c ∈ escaped t) : c ∈ t ∨ IsValueChar c := by
  obtain ⟨d, hd, hc⟩ := List.mem_flatMap.1 h
  rcases mem_escape hc with ⟨rfl, -⟩ | hc
  · exact .inl hd
  · exact .inr (isValueChar_of_escape hc).2

theorem endTag_after_text {n : List Char} {s : String} {ks : List TokenKind}
    (hlawful : Lawful (.script n .code) (.text s :: ks)) (hnormal : IsNormal (.text s :: ks))
    (hlast : Content.last (.script n .code) (.text s :: ks) = .markup) : ∃ name ls, ks = .endTag name :: ls := by
  cases ks with
  | nil => cases hlast
  | cons k ls =>
    cases k with
    | text s' => exact absurd (hnormal.1.2 _ rfl) nofun
    | startTag name attrs selfClosing => exact hlawful.2.1.elim
    | endTag name => exact ⟨name, ls, rfl⟩
    | eof => exact hlawful.2.1.elim

theorem symbols_cons (k : TokenKind) (ks : List TokenKind) : symbols (k :: ks) = k.symbols ++ symbols ks := rfl

theorem kept_text_of_seen {content : Content} (hscript : content.isScript = false) {t : Trail} (ht : t.Follows content)
    {s : String} (hfits : (TokenKind.text s).Fits content) {p : Nat} {ds : List Char} {ss : List Symbol}
    (h : t.seen (Reader.all ⟨.text content none, p, false⟩ (s.toList ++ ds)) = chars s.toList ++ ss) :
    (TokenKind.text s).Kept content := by
  have decoded : ∀ c ∈ s.toList, content.Decodes c ∨ IsValueChar c := by
    obtain ⟨u, hu⟩ : ∃ u, s.toList = escaped u := by
      cases content with
      | script n part => cases hscript
      | _ => exact hfits
    rw [hu] at h ⊢
    intro c hc
    exact (mem_of_mem_escaped hc).imp_left (decodes_of_seen hscript ht h c)
  cases content with
  | markup =>
    intro hreturn
    rcases decoded _ hreturn with hdecodes | hchar
    · exact hdecodes rfl
    · exact hchar.notReturn rfl
  | plain n =>
    intro c hc
    rcases decoded c hc with hdecodes | hchar
    · exact ⟨hdecodes.1, hdecodes.2⟩
    · exact hchar
  | script n part => cases hscript

/-- The first token is kept if what shows is the tokens. -/
theorem kept_of_seen {content : Content} {s : State} {pend : List Char} {k : TokenKind} {ks : List TokenKind}
    (hs : Standing content s pend (k :: ks)) (hlawful : Lawful content (k :: ks)) (hspaced : k.IsSpaced)
    (hnormal : IsNormal (k :: ks)) (hlast : content.last (k :: ks) = .markup) {t : Trail} (ht : t.Follows content)
    {p : Nat} (h : t.seen (Reader.all ⟨s, p, false⟩ (printKinds (k :: ks))) = chars pend ++ symbols (k :: ks)) :
    k.Kept content := by
  rw [printKinds_cons, symbols_cons] at h
  cases hs with
  | markup =>
    cases k with
    | text s => exact kept_text_of_seen rfl ht hlawful.1 h
    | startTag name attrs selfClosing => exact kept_startTag hlawful.1 hspaced h
    | endTag name => trivial
    | eof => exact hlawful.1.elim
  | @plain n hn =>
    cases k with
    | text s => exact kept_text_of_seen rfl ht hlawful.1 h
    | startTag name attrs selfClosing => exact hlawful.1.elim
    | endTag name => trivial
    | eof => exact hlawful.1.elim
  | @script n hn r start _ hr fresh =>
    cases k with
    | text s =>
      obtain rfl := fresh s rfl
      obtain ⟨name, ls, rfl⟩ := endTag_after_text hlawful hnormal hlast
      obtain ⟨hchars, r', start', p', hrun, hrest⟩ := RawState.run_of_seen hn ht h
      exact ⟨hchars, r', hrun, RawState.closes_of_seen ht hrest⟩
    | startTag name attrs selfClosing => exact hlawful.1.elim
    | endTag name => trivial
    | eof => exact hlawful.1.elim

/-- A list of characters that a tag ends leaves nothing after it. -/
theorem chars_eq_nil_of_append {a b : List Symbol} {cs : List Char} {k : TokenKind}
    (h : a ++ chars cs = b ++ [.tag k]) : cs = [] := by
  apply Classical.byContradiction
  intro hne
  have last := congrArg List.getLast? h
  obtain ⟨init, c, rfl⟩ := List.eq_nil_or_concat cs |>.resolve_left hne
  simp [chars] at last

/-- The token is found as it is if it shows as it is. -/
theorem found_of_seen {k : TokenKind} {rest : List Char} {a ss ss' : List Symbol} {pend pend' : List Char}
    (hyields : a ++ chars pend' = chars pend ++ (k.found rest).symbols) (h : a ++ ss' = chars pend ++ (k.symbols ++ ss)) :
    k.found rest = k := by
  cases k with
  | startTag name attrs selfClosing =>
    obtain rfl := chars_eq_nil_of_append hyields
    have alone : a = chars pend ++ (TokenKind.found rest (.startTag name attrs selfClosing)).symbols := by
      simpa [chars] using hyields
    rw [alone, List.append_assoc] at h
    exact Symbol.tag.inj (List.cons.inj (List.append_cancel_left h)).1
  | _ => rfl

theorem filter_symbols {k : TokenKind} (h : k.visible = [k]) : k.symbols.filter Symbol.visible = k.symbols := by
  have whole := symbols_visible [k]
  simpa [symbols, h] using whole.symm

theorem visible_found {k : TokenKind} (h : k.visible = [k]) (rest : List Char) :
    (k.found rest).visible = [k.found rest] := by
  cases k with
  | startTag name attrs selfClosing => rfl
  | _ => exact h

/-! ### All tokens -/

theorem kept_and_placed_of_seen {content : Content} {s : State} {pend : List Char} {ks : List TokenKind}
    (hs : Standing content s pend ks) (hlawful : Lawful content ks) (hvisible : ∀ k ∈ ks, k.visible = [k])
    (hspaced : ∀ k ∈ ks, k.IsSpaced) (hnormal : IsNormal ks) (hlast : content.last ks = .markup) {t : Trail}
    (ht : t.Follows content) {p : Nat}
    (h : t.seen (Reader.all ⟨s, p, false⟩ (printKinds ks)) = chars pend ++ symbols ks) :
    Kept content ks ∧ Placed t.rest ks := by
  induction ks generalizing content s pend t p with
  | nil => exact ⟨trivial, trivial⟩
  | cons k ks ih =>
    have hkept := kept_of_seen hs hlawful (hspaced k (by simp)) hnormal hlast ht h
    obtain ⟨s', es, pend', reads, hs', hyields⟩ := reads_kind hs hlawful.1 hkept (hspaced k (by simp)) hnormal p
    rw [printKinds_cons, reads.all, Trail.seen_append, symbols_cons] at h
    have hk := hvisible k (by simp)
    -- seen rather than traced: what was read may hold end tags of void elements, which no tree shows
    have yields : t.seen es ++ chars pend' = chars pend ++ (k.found t.rest).symbols := by
      have shown := congrArg (List.filter Symbol.visible) (hyields.symbols t ht)
      rw [List.filter_append, List.filter_append, filter_chars, filter_chars] at shown
      rwa [filter_symbols (visible_found hk _)] at shown
    have hfound : k.found t.rest = k := found_of_seen yields h
    have later : (t.run es).seen (Reader.all ⟨s', p + k.print.length, false⟩ (printKinds ks)) =
        chars pend' ++ symbols ks := by
      rw [hfound] at yields
      rw [← List.append_assoc, ← yields, List.append_assoc] at h
      exact List.append_cancel_left h
    obtain ⟨hkepts, hplaced⟩ := ih hs' hlawful.2 (fun l hl => hvisible l (by simp [hl]))
      (fun l hl => hspaced l (by simp [hl])) hnormal.tail hlast (hyields.follows t ht) later
    exact ⟨⟨hkept, hkepts⟩, hfound, hyields.rest t ▸ hplaced⟩

/-- Nothing in a tree is printed as something else: no text or value holds what is read as another character, scripts end
at their end tags, and start tags are found where they declare their attributes. -/
structure Survives (ns : List Node) : Prop where
  kept : Kept .markup (kinds ns)
  placed : Placed (print ns) (kinds ns)

/-- A printed tree is read back as it is exactly if it survives that. -/
theorem parse_print_iff {ns : List Node} (hbalanced : Balanced ns) (hlawful : Lawful .markup (kinds ns))
    (hspaced : ∀ k ∈ kinds ns, k.IsSpaced) (hnormal : IsNormal (kinds ns)) :
    (Document.parse (String.ofList (print ns))).result = .ok ns ↔ Survives ns := by
  constructor
  · intro h
    obtain ⟨hkinds, -, -⟩ := lawful_parse h
    have tokens := Follower.symbols_run (.start (print ns)) (events (print ns))
    have seen : (Trail.start (print ns)).seen (events (print ns)) = symbols (kinds ns) := by
      rw [← hkinds, symbols_visible, Markup.tokens, String.toList_ofList, tokens, List.filter_append]
      exact (List.append_nil _).symm
    have follows : Trail.Follows .markup (.start (print ns)) := rfl
    obtain ⟨hkept, hplaced⟩ := kept_and_placed_of_seen (.markup _) hlawful (visible_kinds hbalanced) hspaced hnormal
      (last_kinds hbalanced) follows seen
    exact ⟨hkept, hplaced⟩
  · rintro ⟨hkept, hplaced⟩
    exact parse_print hbalanced hlawful hkept hspaced hnormal hplaced

end Stencil.Markup
