import Stencil.Proofs.Markup.Tags

/-! The text of scripts and styles. `RawState` is where the reader stands in such text, without the place of the `<`
that may begin the end tag; `pending` is what it has read and not yet yielded. -/

namespace Stencil.Markup

inductive RawState
  | inside (part : ScriptPart)
  /-- After `<`. -/
  | less (part : ScriptPart)
  /-- After `</` and letters. -/
  | name (part : ScriptPart) (letters : List Char)
  deriving DecidableEq

namespace RawState

def pending : RawState → List Char
  | inside _ => []
  | less _ => ['<']
  | name _ letters => '<' :: '/' :: letters

def insideStep (part : ScriptPart) (c : Char) : RawState :=
  if c = '<' ∧ part.canEnd then less part.afterLess else inside (part.step c)

/-- A character after a `<` that begins no end tag. -/
def lessStep (part : ScriptPart) (c : Char) : RawState :=
  match part with
  | .code => if c = '!' then inside .bang else insideStep .code c
  | part => insideStep (if c.isAlpha then .opening [] else part) c

/-- One more character, or none if it shows that the end tag of the element `n` has come. -/
def step (n : List Char) (r : RawState) (c : Char) : Option RawState :=
  match r with
  | inside part => some (insideStep part c)
  | less part => some (if c = '/' then name part [] else lessStep part c)
  | name part letters =>
    if c.isAlpha then some (name part (letters ++ [c]))
    else if letters.map Char.toLower = n ∧ (isSpace c ∨ c = '/' ∨ c = '>') then none
    else some (insideStep part c)

def run (n : List Char) (r : RawState) (t : List Char) : Option RawState := t.foldlM (step n) r

def part : RawState → ScriptPart
  | inside part | less part | name part _ => part

/-- Whether the end tag that follows is taken as such. It is not in a script that a comment of the script holds. -/
def closes (r : RawState) : Bool := r.part.canEnd

/-- The state of the reader, with the place of the last `<`. -/
def toState (n : List Char) (start : Nat) : RawState → State
  | inside part => .text (.script n part) none
  | less part => .endLess (.script n part) start
  | name part letters => .endName (.script n part) start letters

theorem run_cons (n : List Char) (r : RawState) (c : Char) (t : List Char) :
    run n r (c :: t) = (step n r c).bind fun r => run n r t := rfl

theorem textStep_script (n : List Char) (part : ScriptPart) (c : Char) (p : Nat) :
    ∃ out, textStep p (.script n part) c = ((insideStep part c).toState n p, texts out) ∧
      [shown c] = out ++ (insideStep part c).pending := by
  by_cases h : c = '<' ∧ part.canEnd
  · refine ⟨[], ?_, ?_⟩
    · simp [textStep, insideStep, h, toState, texts]
    · rw [insideStep, if_pos h, h.1]
      rfl
  · refine ⟨[shown c], ?_, ?_⟩
    · simp [textStep, insideStep, h, toState, texts]
    · rw [insideStep, if_neg h]
      rfl

theorem scriptLess_eq (n : List Char) (part : ScriptPart) (c : Char) (p : Nat) :
    ∃ out, scriptLess p n part c = ((lessStep part c).toState n p, texts out) ∧
      ['<', shown c] = out ++ (lessStep part c).pending := by
  have after : ∀ part', ∃ out, ((textStep p (.script n part') c).1, .text '<' :: (textStep p (.script n part') c).2) =
      ((insideStep part' c).toState n p, texts out) ∧ ['<', shown c] = out ++ (insideStep part' c).pending := by
    intro part'
    obtain ⟨out, h, hout⟩ := textStep_script n part' c p
    refine ⟨'<' :: out, ?_, by rw [List.cons_append, ← hout]⟩
    rw [h]
    rfl
  unfold scriptLess lessStep
  cases part with
  | code =>
    by_cases hc : c = '!'
    · subst hc
      exact ⟨['<', '!'], rfl, by decide⟩
    · simp only [if_neg hc]
      exact after .code
  | _ => exact after _

/-- The reader does in raw text what `step` does, and yields what is no longer pending. -/
theorem step_toState {n : List Char} {r r' : RawState} {c : Char} (h : step n r c = some r') (start p : Nat) :
    ∃ start' out, (r.toState n start).step p c = (r'.toState n start', texts out) ∧
      r.pending ++ [shown c] = out ++ r'.pending := by
  cases r with
  | inside part =>
    obtain rfl : insideStep part c = r' := Option.some.inj h
    obtain ⟨out, h1, h2⟩ := textStep_script n part c p
    exact ⟨p, out, h1, h2⟩
  | less part =>
    obtain rfl := Option.some.inj h
    by_cases hc : c = '/'
    · subst hc
      exact ⟨start, [], rfl, rfl⟩
    · rw [if_neg hc]
      obtain ⟨out, h1, h2⟩ := scriptLess_eq n part c p
      refine ⟨p, out, ?_, h2⟩
      rw [← h1]
      simp [toState, State.step, endLessStep, hc]
  | name part letters =>
    simp only [step] at h
    by_cases ha : c.isAlpha
    · rw [if_pos ha] at h
      obtain rfl := Option.some.inj h
      have notNull : c ≠ '\x00' := by rintro rfl; exact absurd ha (by decide)
      refine ⟨start, [], ?_, ?_⟩
      · simp [toState, State.step, endNameStep, ha, texts]
      · simp [pending, shown, notNull]
    · rw [if_neg ha] at h
      split at h
      · cases h
      · next hend =>
        obtain rfl := Option.some.inj h
        -- the letters turn out to be text
        obtain ⟨out, h1, h2⟩ := textStep_script n part c p
        refine ⟨p, '<' :: '/' :: letters ++ out, ?_, ?_⟩
        · have hsp : ¬ (letters.map Char.toLower = n ∧ isSpace c) := fun hx => hend ⟨hx.1, .inl hx.2⟩
          have hsl : ¬ (letters.map Char.toLower = n ∧ c = '/') := fun hx => hend ⟨hx.1, .inr (.inl hx.2)⟩
          have hcl : ¬ (letters.map Char.toLower = n ∧ c = '>') := fun hx => hend ⟨hx.1, .inr (.inr hx.2)⟩
          change endNameStep p (.script n part) start letters c = _
          unfold endNameStep
          simp only [ha, Content.name, hsp, hsl, hcl, if_false, Bool.false_eq_true]
          rw [h1]
          simp [texts]
        · rw [List.append_assoc, ← h2]
          rfl

theorem reads_run {n : List Char} {r r' : RawState} {t : List Char} (h : run n r t = some r')
    (ht : ∀ c ∈ t, IsValueChar c) (start p : Nat) :
    ∃ start' out, Reads p (r.toState n start) t (r'.toState n start') (texts out) ∧
      r.pending ++ t = out ++ r'.pending := by
  induction t generalizing r start p with
  | nil =>
    obtain rfl := Option.some.inj h
    exact ⟨start, [], Reads.nil p _, by simp⟩
  | cons c t ih =>
    have hc := ht c List.mem_cons_self
    rw [run_cons, Option.bind_eq_some_iff] at h
    obtain ⟨r₁, hstep, hrun⟩ := h
    obtain ⟨start₁, out₁, h₁, hp₁⟩ := step_toState hstep start p
    obtain ⟨start₂, out₂, h₂, hp₂⟩ := ih hrun (fun d hd => ht d (List.mem_cons_of_mem _ hd)) start₁ (p + 1)
    refine ⟨start₂, out₁ ++ out₂, ?_, ?_⟩
    · rw [texts, List.map_append]
      exact Reads.cons hc.notReturn h₁ h₂
    · have shown_c : shown c = c := if_neg hc.notNull
      rw [shown_c] at hp₁
      rw [List.append_assoc, ← hp₂, ← List.append_assoc, ← hp₁]
      simp

theorem step_less {r : RawState} (h : r.closes) (n : List Char) :
    step n r '<' = some (less r.part.afterLess) := by
  have inside : ∀ part : ScriptPart, part.canEnd → insideStep part '<' = less part.afterLess :=
    fun part hp => if_pos ⟨rfl, hp⟩
  cases r with
  | inside part => exact congrArg some (inside part h)
  | less part =>
    have hless : lessStep part '<' = less part.afterLess := by
      cases part with
      | code => rfl
      | _ => exact inside _ h
    exact congrArg some hless
  | name part letters =>
    have hstep : step n (name part letters) '<' = some (insideStep part '<') := by
      simp [step, show ('<' : Char).isAlpha = false by decide, isSpace]
    rw [hstep, inside part h]
    rfl

theorem reads_end {n : List Char} {r : RawState} (h : r.closes) (ha : ∀ c ∈ n, c.isAlpha)
    (hl : n.map Char.toLower = n) (start p : Nat) :
    ∃ place, Reads p (r.toState n start) ('<' :: '/' :: n ++ ['>']) (.text .markup none)
      (texts r.pending ++ [.endTag place n]) := by
  obtain ⟨place, out, hstep, hout⟩ := step_toState (step_less h n) start p
  obtain rfl : r.pending = out := List.append_cancel_right hout
  have after : Reads (p + 1) (.endLess (.script n r.part.afterLess) place) ('/' :: n ++ ['>']) (.text .markup none)
      [.endTag place n] := reads_afterLess (.script n r.part.afterLess) rfl ha hl place (p + 1)
  exact ⟨place, Reads.cons (by decide) hstep after⟩

end RawState
end Stencil.Markup
