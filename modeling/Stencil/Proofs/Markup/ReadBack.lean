import Stencil.Proofs.Markup.RawText
import Stencil.Proofs.Markup.Sourced

/-! Reading printed tokens. Lawful tokens are read back as they are if no text or value holds what the reader takes for
another character, if scripts still end at their end tags, and if start tags are found with their attributes. -/

namespace Stencil.Markup

/-- A script that begins with this text ends at the end tag after it. -/
def EndsScript (n t : List Char) : Prop := ∃ r, RawState.run n (.inside .code) t = some r ∧ r.closes = true

/-- A token holds nothing that is read as something else. -/
def TokenKind.Kept : Content → TokenKind → Prop
  | .markup, .text s => '\r' ∉ s.toList
  | .plain _, .text s => ∀ c ∈ s.toList, IsValueChar c
  | .script n _, .text s => (∀ c ∈ s.toList, IsValueChar c) ∧ EndsScript n s.toList
  | _, .startTag _ attrs _ => ∀ a ∈ attrs, ∀ v ∈ a.2, ∀ c ∈ v.toList, IsValueChar c
  | _, _ => True

def Kept : Content → List TokenKind → Prop
  | _, [] => True
  | content, k :: ks => k.Kept content ∧ Kept (content.next k) ks

def TokenKind.IsSpaced : TokenKind → Prop
  | .startTag _ attrs _ => Spaced attrs
  | _ => True

/-- A start tag with its attributes as it is found in a source to declare them. -/
def TokenKind.found (rest : List Char) : TokenKind → TokenKind
  | .startTag name attrs selfClosing =>
    .startTag name (ordered (attrs.map readAttr) (startAt name.toList rest).1) selfClosing
  | k => k

def TokenKind.past (rest : List Char) : TokenKind → List Char
  | .startTag name _ _ => (startAt name.toList rest).2
  | .endTag name => endAt name.toList rest
  | _ => rest

/-- Each start tag is found with its attributes in the source that the tags before it leave. -/
def Placed : List Char → List TokenKind → Prop
  | _, [] => True
  | rest, k :: ks => k.found rest = k ∧ Placed (k.past rest) ks

/-- Where the reader stands before tokens in a content, with the part of a raw text that it has read and not yielded. -/
inductive Standing : Content → State → List Char → List TokenKind → Prop
  | markup (ks : List TokenKind) : Standing .markup (.text .markup none) [] ks
  | plain {n : List Char} (hn : IsRawName n) (ks : List TokenKind) : Standing (.plain n) (.text (.plain n) none) [] ks
  | script {n : List Char} (hn : IsRawName n) {r : RawState} (start : Nat) {ks : List TokenKind} (hr : r.closes)
    (fresh : ∀ s, ks.head? = some (.text s) → r = .inside .code) :
    Standing (.script n .code) (r.toState n start) r.pending ks

theorem standing_ofStartTag (name : List Char) (selfClosing : Bool) (ks : List TokenKind) :
    Standing (.ofStartTag name selfClosing) (.text (.ofStartTag name selfClosing) none) [] ks := by
  have begins : ∀ content : Content, content.IsStage → Standing content (.text content none) [] ks := by
    rintro (_ | n | ⟨n, part⟩) h
    · exact .markup ks
    · exact .plain h ks
    · obtain ⟨hn, rfl⟩ := h
      exact .script (r := .inside .code) hn 0 rfl fun _ _ => rfl
  exact begins _ (isStage_ofStartTag name selfClosing)

theorem IsRawName.map_toLower {n : List Char} (h : IsRawName n) : n.map Char.toLower = n := by
  rw [List.map_congr_left h.small, List.map_id']

theorem mem_escape {c d : Char} (h : c ∈ (Follower.escape d).toList) :
    (c = d ∧ d ≠ '<') ∨ c ∈ ['&', 'a', 'm', 'p', 'l', 't', ';'] := by
  have amp : ∀ c ∈ "&amp;".toList, c ∈ ['&', 'a', 'm', 'p', 'l', 't', ';'] := forall_mem_of_all (by decide)
  have lt : ∀ c ∈ "&lt;".toList, c ∈ ['&', 'a', 'm', 'p', 'l', 't', ';'] := forall_mem_of_all (by decide)
  unfold Follower.escape at h
  split at h
  · exact .inr (amp c h)
  · split at h
    · exact .inr (lt c h)
    · next hlt =>
      rw [show d.toString.toList = [d] by simp, List.mem_singleton] at h
      exact .inl ⟨h, hlt⟩

theorem isValueChar_of_escape {c : Char} (h : c ∈ ['&', 'a', 'm', 'p', 'l', 't', ';']) : c ≠ '<' ∧ IsValueChar c := by
  have each : ∀ c ∈ ['&', 'a', 'm', 'p', 'l', 't', ';'], c ≠ '<' ∧ c ≠ '\r' ∧ c ≠ '\x00' :=
    forall_mem_of_all (by decide)
  obtain ⟨hlt, hreturn, hnull⟩ := each c h
  exact ⟨hlt, hreturn, hnull⟩

theorem mem_escaped {c : Char} (hamp : c ≠ '&') (hlt : c ≠ '<') {t : List Char} (h : c ∈ t) : c ∈ escaped t := by
  refine List.mem_flatMap.2 ⟨c, h, ?_⟩
  simp [Follower.escape, hamp, hlt]

def Trail.Follows (content : Content) (t : Trail) : Prop := t.inScript = content.isScript

/-- What reading a token yields, apart from what stays pending of raw text. -/
structure Yields (content : Content) (pend : List Char) (k : TokenKind) (es : List Event) (pend' : List Char) : Prop where
  symbols : ∀ t : Trail, t.Follows content → t.trace es ++ chars pend' = chars pend ++ (k.found t.rest).symbols
  follows : ∀ t : Trail, t.Follows content → (t.run es).Follows (content.next k)
  rest : ∀ t : Trail, (t.run es).rest = k.past t.rest

theorem yields_text {content : Content} {s : String} {pend out pend' : List Char}
    (h : ∀ t : Trail, t.Follows content → t.write out ++ pend' = pend ++ s.toList) :
    Yields content pend (.text s) (texts out) pend' := by
  have next : content.next (.text s) = content := by cases content <;> rfl
  refine ⟨fun t ht => ?_, fun t ht => ?_, fun t => ?_⟩
  · change t.trace (texts out) ++ chars pend' = chars pend ++ chars s.toList
    rw [Trail.trace_texts, chars, chars, chars, chars, ← List.map_append, ← List.map_append, h t ht]
  · rw [Trail.run_texts, next]
    exact ht
  · rw [Trail.run_texts]
    rfl

theorem yields_escaped {content : Content} (hc : content.isScript = false) {s : String} {t : List Char}
    (h : s.toList = escaped t) : Yields content [] (.text s) (texts t) [] :=
  yields_text fun trail ht => by simp [Trail.write, show trail.inScript = false from ht.trans hc, h]

theorem yields_endTag {content : Content} {pend out : List Char} (place : Nat) (name : String)
    (h : ∀ t : Trail, t.Follows content → t.write out = pend) :
    Yields content pend (.endTag name) (texts out ++ [.endTag place name.toList]) [] := by
  refine ⟨fun t ht => ?_, fun t ht => ?_, fun t => ?_⟩
  · rw [Trail.trace_append, Trail.trace_texts, h t ht, Trail.run_texts]
    simp [Trail.trace, Trail.symbols, TokenKind.found, TokenKind.symbols, chars]
  · rw [Trail.run_append, Trail.run_texts]
    rfl
  · rw [Trail.run_append, Trail.run_texts]
    rfl

theorem yields_endTag_alone (content : Content) (place : Nat) (name : String) :
    Yields content [] (.endTag name) [.endTag place name.toList] [] := by
  have nothing : ∀ t : Trail, t.write [] = [] := fun t => by simp [Trail.write, escaped]
  exact yields_endTag place name fun t _ => nothing t

theorem yields_startTag (place : Nat) (name : String) (attrs : List (String × Option String)) (selfClosing : Bool) :
    Yields .markup [] (.startTag name attrs selfClosing)
      [.startTag place name.toList (attrs.map readAttr) selfClosing] [] := by
  refine ⟨fun t ht => ?_, fun t ht => ?_, fun t => rfl⟩
  · simp [Trail.trace, Trail.symbols, TokenKind.found, TokenKind.symbols, chars]
  · change (t.inScript || _) = Content.isScript (.ofStartTag name.toList selfClosing)
    rw [isScript_ofStartTag, show t.inScript = false from ht, Bool.false_or]

section Kinds

variable {k : TokenKind} {ks : List TokenKind} {n : List Char}

/-- What reading a printed token comes to. -/
def ReadsKind (content : Content) (s : State) (pend : List Char) (k : TokenKind) (ks : List TokenKind) : Prop :=
  ∀ p, ∃ s' es pend', Reads p s k.print s' es ∧ Standing (content.next k) s' pend' ks ∧ Yields content pend k es pend'

theorem reads_kind_markup (hfits : k.Fits .markup) (hkept : k.Kept .markup) (hspaced : k.IsSpaced) :
    ReadsKind .markup (.text .markup none) [] k ks := by
  intro p
  cases k with
  | text s =>
    obtain ⟨t, ht⟩ := hfits
    have decodes : ∀ c ∈ t, Content.Decodes .markup c := by
      rintro c hc rfl
      exact hkept (ht ▸ mem_escaped (by decide) (by decide) hc)
    have reads : Reads p (.text .markup none) s.toList (.text .markup none) (texts t) := ht ▸ reads_escaped decodes p
    exact ⟨_, _, [], reads, .markup ks, yields_escaped rfl ht⟩
  | startTag name attrs selfClosing =>
    have readable : ReadableAttrs attrs := ⟨hfits.2.1, hfits.2.2, hkept, hspaced⟩
    exact ⟨_, _, [], reads_startTag hfits.1 readable selfClosing p, standing_ofStartTag _ _ ks, yields_startTag ..⟩
  | endTag name => exact ⟨_, _, [], reads_endTag hfits.1 p, .markup ks, yields_endTag_alone _ p name⟩
  | eof => exact hfits.elim

theorem reads_kind_plain (hn : IsRawName n) (hfits : k.Fits (.plain n)) (hkept : k.Kept (.plain n)) :
    ReadsKind (.plain n) (.text (.plain n) none) [] k ks := by
  intro p
  cases k with
  | text s =>
    obtain ⟨t, ht⟩ := hfits
    have decodes : ∀ c ∈ t, Content.Decodes (.plain n) c := by
      intro c hc
      by_cases hamp : c = '&'
      · exact hamp ▸ ⟨by decide, by decide⟩
      · by_cases hlt : c = '<'
        · exact hlt ▸ ⟨by decide, by decide⟩
        · obtain ⟨h1, h2⟩ := hkept c (ht ▸ mem_escaped hamp hlt hc)
          exact ⟨h1, h2⟩
    have reads : Reads p (.text (.plain n) none) s.toList (.text (.plain n) none) (texts t) :=
      ht ▸ reads_escaped decodes p
    exact ⟨_, _, [], reads, .plain hn ks, yields_escaped rfl ht⟩
  | startTag name attrs selfClosing => exact hfits.elim
  | endTag name =>
    have hname : name.toList = n := hfits.2.resolve_left fun h => Content.noConfusion h
    have less : State.step p (.text (.plain n) none) '<' = (.endLess (.plain n) p, []) := rfl
    have after := reads_afterLess (.plain n) (rfl : Content.name (.plain n) = n) hn.letters hn.map_toLower p (p + 1)
    have reads : Reads p (.text (.plain n) none) ('<' :: '/' :: n ++ ['>']) (.text .markup none) [.endTag p n] :=
      Reads.silent (by decide) less after
    refine ⟨_, _, [], (show Reads p _ (TokenKind.endTag name).print _ _ from ?_), .markup ks,
      yields_endTag_alone _ p name⟩
    rw [TokenKind.print, hname]
    exact reads
  | eof => exact hfits.elim

theorem reads_kind_script (hn : IsRawName n) {r : RawState} (start : Nat) (hr : r.closes)
    (fresh : ∀ s, (k :: ks).head? = some (.text s) → r = .inside .code) (hfits : k.Fits (.script n .code))
    (hkept : k.Kept (.script n .code)) (hnormal : IsNormal (k :: ks)) :
    ReadsKind (.script n .code) (r.toState n start) r.pending k ks := by
  intro p
  have written : ∀ t : Trail, t.Follows (.script n .code) → ∀ cs, t.write cs = cs := by
    intro t ht cs
    rw [Trail.write, if_pos (show t.inScript = true from ht)]
  cases k with
  | text s =>
    obtain rfl := fresh s rfl
    obtain ⟨hchars, r', hrun, hcloses⟩ := hkept
    obtain ⟨start', out, reads, hout⟩ := RawState.reads_run hrun hchars start p
    refine ⟨_, _, _, reads, .script hn start' hcloses fun s' hs' => ?_, yields_text fun t ht => ?_⟩
    · cases hnormal.1.2 _ hs'
    · rw [written t ht, ← hout]
  | startTag name attrs selfClosing => exact hfits.elim
  | endTag name =>
    have hname : name.toList = n := hfits.2.resolve_left fun h => Content.noConfusion h
    obtain ⟨place, reads⟩ := RawState.reads_end hr hn.letters hn.map_toLower start p
    subst hname
    exact ⟨_, _, [], reads, .markup ks, yields_endTag place name fun t ht => written t ht _⟩
  | eof => exact hfits.elim

end Kinds

theorem reads_kind {content : Content} {s : State} {pend : List Char} {k : TokenKind} {ks : List TokenKind}
    (hs : Standing content s pend (k :: ks)) (hfits : k.Fits content) (hkept : k.Kept content) (hspaced : k.IsSpaced)
    (hnormal : IsNormal (k :: ks)) : ReadsKind content s pend k ks := by
  cases hs with
  | markup => exact reads_kind_markup hfits hkept hspaced
  | plain hn => exact reads_kind_plain hn hfits hkept
  | script hn start hr fresh => exact reads_kind_script hn start hr fresh hfits hkept hnormal

/-- Printed tokens are read back as they are, and whole contents leave nothing pending. -/
theorem reads_kinds {content : Content} {s : State} {pend : List Char} {ks : List TokenKind}
    (hs : Standing content s pend ks) (hlawful : Lawful content ks) (hkept : Kept content ks)
    (hspaced : ∀ k ∈ ks, k.IsSpaced) (hnormal : IsNormal ks) (hlast : content.last ks = .markup) {t : Trail}
    (ht : t.Follows content) (hplaced : Placed t.rest ks) (p : Nat) :
    ∃ es, Reads p s (printKinds ks) (.text .markup none) es ∧ t.trace es = chars pend ++ symbols ks := by
  induction ks generalizing content s pend t p with
  | nil =>
    obtain rfl : content = .markup := hlast
    cases hs
    exact ⟨[], Reads.nil p _, rfl⟩
  | cons k ks ih =>
    obtain ⟨s', es, pend', reads, hs', hyields⟩ := reads_kind hs hlawful.1 hkept.1 (hspaced k (by simp)) hnormal p
    obtain ⟨hfound, hplaced⟩ := hplaced
    -- the events of the token stand without the source after it, which only says where start tags are found
    obtain ⟨es', reads', htrace'⟩ := ih hs' hlawful.2 hkept.2 (fun l hl => hspaced l (by simp [hl])) hnormal.tail hlast
      (hyields.follows t ht) (hyields.rest t ▸ hplaced) (p + k.print.length)
    refine ⟨es ++ es', ?_, ?_⟩
    · rw [printKinds_cons]
      exact reads.trans reads'
    · have htrace := hyields.symbols t ht
      rw [hfound] at htrace
      rw [Trail.trace_append, htrace', ← List.append_assoc, htrace, List.append_assoc]
      rfl

theorem isNormal_eof {ks : List TokenKind} (h : IsNormal ks) : IsNormal (ks ++ [.eof]) := by
  induction ks with
  | nil => trivial
  | cons k ks ih =>
    cases k with
    | text s =>
      refine ⟨⟨h.1.1, ?_⟩, ih h.2⟩
      cases ks with
      | nil => rintro _ ⟨⟩; rfl
      | cons k ks => exact h.1.2
    | _ => exact ih h

/-- A source is read as a tree if its events have the symbols of the tree. -/
theorem parse_of_trace {source : String} {ns : List Node} (hbalanced : Balanced ns) (hnormal : IsNormal (kinds ns))
    (h : (Trail.start source.toList).trace (events source.toList) = symbols (kinds ns)) :
    (Document.parse source).result = .ok ns := by
  have tokens : (tokens source).map Token.kind = kinds ns ++ [.eof] :=
    (kinds_tokens_iff (isNormal_eof hnormal)).2 h
  unfold Document.parse
  rw [ofTokens_of_kinds hbalanced tokens]
  rfl

theorem parse_print {ns : List Node} (hbalanced : Balanced ns) (hlawful : Lawful .markup (kinds ns))
    (hkept : Kept .markup (kinds ns)) (hspaced : ∀ k ∈ kinds ns, k.IsSpaced) (hnormal : IsNormal (kinds ns))
    (hplaced : Placed (print ns) (kinds ns)) : (Document.parse (String.ofList (print ns))).result = .ok ns := by
  have follows : Trail.Follows .markup (.start (print ns)) := rfl
  obtain ⟨es, reads, htrace⟩ := reads_kinds (.markup _) hlawful hkept hspaced hnormal (last_kinds hbalanced) follows
    hplaced 0
  have run : Reader.start.run (print ns) = _ := reads
  have all : events (print ns) = es := by simp [events, run, State.finish]
  apply parse_of_trace hbalanced hnormal
  rw [String.toList_ofList, all]
  exact htrace

end Stencil.Markup
