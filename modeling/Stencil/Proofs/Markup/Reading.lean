import Stencil.Proofs.Markup.Print

/-! How the reader of markup takes the pieces of printed markup: escaped text, names, attributes and tags. Each lemma
says where the reader stands after a piece and which events the piece yields, and `Reads.trans` puts pieces together. -/

namespace Stencil.Markup

/-- From a state, `cs` read at place `p` leads to another state and yields events. -/
def Reads (p : Nat) (s : State) (cs : List Char) (s' : State) (es : List Event) : Prop :=
  Reader.run ⟨s, p, false⟩ cs = (⟨s', p + cs.length, false⟩, es)

theorem Reads.nil (p : Nat) (s : State) : Reads p s [] s [] := rfl

theorem Reads.trans {p : Nat} {s s' s'' : State} {cs ds : List Char} {es es' : List Event} (h : Reads p s cs s' es)
    (h' : Reads (p + cs.length) s' ds s'' es') : Reads p s (cs ++ ds) s'' (es ++ es') := by
  unfold Reads at *
  rw [Reader.run_append, h, h', List.length_append, Nat.add_assoc]

theorem Reads.one {p : Nat} {s s' : State} {c : Char} {es : List Event} (hc : c ≠ '\r')
    (h : s.step p c = (s', es)) : Reads p s [c] s' es := by
  simp [Reads, Reader.run, Reader.step, hc, h]

theorem Reads.cons {p : Nat} {s s' s'' : State} {c : Char} {cs : List Char} {es es' : List Event} (hc : c ≠ '\r')
    (h : s.step p c = (s', es)) (h' : Reads (p + 1) s' cs s'' es') : Reads p s (c :: cs) s'' (es ++ es') :=
  (Reads.one hc h).trans h'

/-- One character that yields nothing, and what follows. -/
theorem Reads.silent {p : Nat} {s s' s'' : State} {c : Char} {cs : List Char} {es : List Event} (hc : c ≠ '\r')
    (h : s.step p c = (s', [])) (h' : Reads (p + 1) s' cs s'' es) : Reads p s (c :: cs) s'' es :=
  (Reads.one hc h).trans h'

/-! ### References -/

/-- The text of a reference that ends exactly with `cs`. -/
def Reference.spelled? (inAttr : Bool) (r : Reference) : List Char → Option (List Char)
  | [] => none
  | c :: cs =>
    match r.step inAttr c with
    | .more r => spelled? inAttr r cs
    | .done text taken => if cs = [] ∧ taken then some text else none

theorem spelled_amp (inAttr : Bool) : Reference.spelled? inAttr .start ['a', 'm', 'p', ';'] = some ['&'] := by
  cases inAttr <;> decide +kernel

theorem spelled_lt : Reference.spelled? false .start ['l', 't', ';'] = some ['<'] := by decide +kernel

theorem spelled_quot : Reference.spelled? true .start ['q', 'u', 'o', 't', ';'] = some ['"'] := by decide +kernel

/-- Characters that spell a reference out, read where the reference is held until it is done. -/
theorem reads_spelled {inAttr : Bool} (held : Reference → State) (after : List Char → State)
    (events : List Char → List Event)
    (more : ∀ {r c r'}, r.step inAttr c = .more r' → ∀ p, (held r).step p c = (held r', []))
    (done : ∀ {r c text}, r.step inAttr c = .done text true → ∀ p, (held r).step p c = (after text, events text))
    {r : Reference} {cs text : List Char} (hcs : '\r' ∉ cs) (h : r.spelled? inAttr cs = some text) (p : Nat) :
    Reads p (held r) cs (after text) (events text) := by
  induction cs generalizing r p with
  | nil => simp [Reference.spelled?] at h
  | cons c cs ih =>
    rw [List.mem_cons, not_or] at hcs
    have hc : c ≠ '\r' := Ne.symm hcs.1
    unfold Reference.spelled? at h
    cases hr : r.step inAttr c with
    | more r' =>
      rw [hr] at h
      exact Reads.silent hc (more hr p) (ih hcs.2 h (p + 1))
    | done t taken =>
      rw [hr] at h
      obtain ⟨⟨rfl, rfl⟩, rfl⟩ : (cs = [] ∧ taken = true) ∧ t = text := by simpa using h
      exact Reads.one hc (done hr p)

theorem reads_reference {content : Content} {r : Reference} {cs text : List Char} (hcs : '\r' ∉ cs)
    (h : r.spelled? false cs = some text) (p : Nat) :
    Reads p (.text content (some r)) cs (.text content none) (texts text) := by
  apply reads_spelled (fun r => .text content (some r)) (fun _ => .text content none) texts _ _ hcs h
  · intro r c r' hr p
    simp [State.step, hr]
  · intro r c text hr p
    simp [State.step, hr]

theorem reads_valueReference {tag : OpenTag} {name v : List Char} {q : Quoting} {r : Reference}
    {cs text : List Char} (hcs : '\r' ∉ cs) (h : r.spelled? true cs = some text) (p : Nat) :
    Reads p (.value tag name q v (some r)) cs (.value tag name q (v ++ text) none) [] := by
  apply reads_spelled (fun r => .value tag name q v (some r)) (fun text => .value tag name q (v ++ text) none)
    (fun _ => []) _ _ hcs h
  · intro r c r' hr p
    simp [State.step, hr]
  · intro r c text hr p
    simp [State.step, hr]

/-! ### Text -/

def Content.Decodes : Content → Char → Prop
  | markup, c => c ≠ '\r'
  | plain _, c => c ≠ '\r' ∧ c ≠ '\x00'
  | script .., _ => False

theorem textStep_amp {content : Content} {c : Char} (h : content.Decodes c) (p : Nat) :
    textStep p content '&' = (.text content (some .start), []) := by
  cases content with
  | markup => rfl
  | plain name => rfl
  | script name part => exact h.elim

theorem textStep_other {content : Content} {c : Char} (h : content.Decodes c) (hlt : c ≠ '<') (hamp : c ≠ '&')
    (p : Nat) : textStep p content c = (.text content none, [.text c]) := by
  cases content with
  | markup => simp [textStep, hlt, hamp]
  | plain name => simp [textStep, hlt, hamp, shown, h.2]
  | script name part => exact h.elim

theorem reads_escape {content : Content} {c : Char} (h : content.Decodes c) (p : Nat) :
    Reads p (.text content none) (Follower.escape c).toList (.text content none) [.text c] := by
  have amp : State.step p (.text content none) '&' = (.text content (some .start), []) := textStep_amp h p
  unfold Follower.escape
  split
  · next hc =>
    subst hc
    exact Reads.silent (by decide) amp (reads_reference (by decide) (spelled_amp false) (p + 1))
  · split
    · next hc =>
      subst hc
      exact Reads.silent (by decide) amp (reads_reference (by decide) spelled_lt (p + 1))
    · next hamp hlt =>
      have hr : c ≠ '\r' := by
        cases content with
        | markup => exact h
        | plain name => exact h.1
        | script name part => exact h.elim
      rw [show c.toString.toList = [c] by simp]
      exact Reads.one hr (textStep_other h hlt hamp p)

theorem reads_escaped {content : Content} {t : List Char} (h : ∀ c ∈ t, content.Decodes c) (p : Nat) :
    Reads p (.text content none) (escaped t) (.text content none) (texts t) := by
  induction t generalizing p with
  | nil => exact Reads.nil p _
  | cons c t ih =>
    exact (reads_escape (h c List.mem_cons_self) p).trans (ih (fun c hc => h c (List.mem_cons_of_mem _ hc)) _)

end Stencil.Markup
