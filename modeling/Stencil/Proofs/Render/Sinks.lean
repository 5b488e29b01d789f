import Stencil.Proofs.Render.Failures

/-! One rendering seen through different sinks. What a limited writer holds is as much of the text as there is room
for, and it fails exactly if that is not all of it: a full writer comes before every later failure of a directive, and
after every earlier one. -/

namespace Stencil

theorem Text.Utf8.encode_append (s t : String) : encode (s ++ t) = encode s ++ encode t := by
  simp [encode, String.toUTF8]

theorem Text.Utf8.encode_join (chunks : List String) : encode (String.join chunks) = chunks.flatMap encode := by
  induction chunks with
  | nil => rfl
  | cons chunk chunks ih => rw [String.join_cons, encode_append, ih, List.flatMap_cons]

/-- A writer with room for `n` more bytes takes as many, and fails if they are not all. At most two writes are made: one
that takes what there is room for, and one that fails. -/
theorem Writer.writeAll_limited (detail : String) (new held : List UInt8) (n : Nat) :
    (limited detail).writeAll new ⟨held, some n⟩ =
      if new.length ≤ n then (.ok (), ⟨held ++ new, some (n - new.length)⟩)
      else (.error detail, ⟨held ++ new.take n, some 0⟩) := by
  cases new with
  | nil => simp [writeAll]
  | cons b bs =>
    cases n with
    | zero => simp [writeAll, limited]
    | succ n =>
      have first : (limited detail).write (b :: bs) ⟨held, some (n + 1)⟩ =
          (.ok (min n bs.length + 1), ⟨held ++ b :: bs.take n, some (n - bs.length)⟩) := by
        simp [limited, Nat.succ_min_succ, List.take_succ_cons]
      rw [writeAll, first]
      dsimp only
      by_cases h : bs.length ≤ n
      · rw [Nat.min_eq_right h, List.drop_length, writeAll, if_pos (by simpa using h), List.take_of_length_le h]
        simp
      · have full : n - bs.length = 0 := by omega
        obtain ⟨x, rest, hrest⟩ := List.exists_cons_of_ne_nil (show bs.drop n ≠ [] by simpa using h)
        rw [Nat.min_eq_left (by omega), full, hrest, if_neg (by simpa using h), writeAll]
        simp [limited]

theorem Sink.append_limited (detail chunk : String) (held : List UInt8) (n : Nat) :
    (writing (.limited detail)).append chunk ⟨held, some n⟩ =
      if (Text.Utf8.encode chunk).length ≤ n then
        (.ok (), ⟨held ++ Text.Utf8.encode chunk, some (n - (Text.Utf8.encode chunk).length)⟩)
      else (.error (.io detail), ⟨held ++ (Text.Utf8.encode chunk).take n, some 0⟩) := by
  simp only [writing, Writer.writeAll_limited]
  split <;> rfl

namespace Outcome

theorem emitAll_limited (detail : String) (chunks : List String) (held : List UInt8) (n : Nat) :
    let all := chunks.flatMap Text.Utf8.encode
    emitAll (Sink.writing (.limited detail)) chunks ⟨held, some n⟩ =
      if all.length ≤ n then (.ok (), ⟨held ++ all, some (n - all.length)⟩)
      else (.error (.io detail), ⟨held ++ all.take n, some 0⟩) := by
  induction chunks generalizing held n with
  | nil => simp [emitAll]
  | cons chunk chunks ih =>
    have first := Sink.append_limited detail chunk held n
    dsimp only at ih ⊢
    rw [emitAll, first, List.flatMap_cons, List.length_append]
    by_cases h : (Text.Utf8.encode chunk).length ≤ n
    · rw [if_pos h]
      dsimp only
      rw [ih]
      by_cases hrest : (chunks.flatMap Text.Utf8.encode).length ≤ n - (Text.Utf8.encode chunk).length
      · rw [if_pos hrest, if_pos (by omega), List.append_assoc, Nat.sub_sub]
      · rw [if_neg hrest, if_neg (by omega), List.take_append, List.take_of_length_le h, List.append_assoc]
    · rw [if_neg h, if_neg (by omega), List.take_append_of_le_length (by omega)]

theorem emit_limited (detail : String) (o : Outcome) (n : Nat) :
    let all := Text.Utf8.encode (String.join o.chunks)
    let written := o.emit (Sink.writing (.limited detail)) ⟨[], some n⟩
    written.2.bytes = all.take n ∧ written.1 = if all.length ≤ n then o.result else .error (.io detail) := by
  dsimp only
  rw [Text.Utf8.encode_join, emit, emitAll_limited]
  by_cases h : (o.chunks.flatMap Text.Utf8.encode).length ≤ n
  · rw [if_pos h, if_pos h, List.take_of_length_le h]
    exact ⟨rfl, rfl⟩
  · rw [if_neg h, if_neg h]
    exact ⟨rfl, rfl⟩

end Outcome

theorem Error.IsLookup.isRenderError {err : Error} (h : err.IsLookup) : err.isRenderError := by
  cases err with
  | unbound | noSuchProperty | notIterable => rfl
  | _ => exact h.elim

theorem Meaning.isRenderError_of_nodes (c : Config) (d : Markup.Document) (env : Environment) :
    (nodes c d env).FailsWith fun err => err.isRenderError := by
  refine failsWith_nodes (fun _ h => h.isRenderError) (fun e _ directive value _ err herr => ?_) env
  rw [Directive.read_eq] at herr
  split at herr
  · cases herr
  · obtain rfl := Except.error.inj herr
    rfl

namespace Render

variable {σ : Type}

/-- How rendering a document into an output ends, and the output then. -/
def into (sink : Sink σ) (c : Config) (d : Markup.Document) (scope : Scope) (out : σ) : Except Error Unit × σ :=
  let (result, after) := document sink c d ⟨scope, out, #[]⟩
  (result, after.out)

theorem into_eq_emit (sink : Sink σ) (c : Config) (d : Markup.Document) (scope : Scope) (out : σ) :
    into sink c d scope out = (Meaning.nodes c d scope.get?).emit sink out :=
  (means_document d ⟨scope, out, #[]⟩).1

/-- The text is all chunks one after the other. A writer that takes `n` bytes holds the first `n` bytes of the text; it
fails exactly if the text has more, and else the rendering ends as it does with the text. -/
theorem into_sinks_agree (c : Config) (d : Markup.Document) (scope : Scope) :
    let text := into Sink.text c d scope ""
    let chunks := into Sink.chunks c d scope #[]
    (String.join chunks.2.toList = text.2 ∧ chunks.1 = text.1) ∧
    ∀ (detail : String) (n : Nat),
      let written := into (Sink.writing (.limited detail)) c d scope ⟨[], some n⟩
      let all := Text.Utf8.encode text.2
      written.2.bytes = all.take n ∧ (written.1 = .error (.io detail) ↔ n < all.length) ∧
        (all.length ≤ n → written.1 = text.1) := by
  simp only [into_eq_emit, Outcome.emit_text, Outcome.emit_chunks]
  refine ⟨⟨by simp, trivial⟩, fun detail n => ?_⟩
  obtain ⟨hbytes, hresult⟩ := Outcome.emit_limited detail (Meaning.nodes c d scope.get?) n
  rw [String.empty_append]
  refine ⟨hbytes, ?_, fun h => hresult.trans (if_pos h)⟩
  rw [hresult]
  split
  · next h =>
    -- a directive never fails in the way the writer does
    refine ⟨fun herr => ?_, fun hmore => absurd h (by omega)⟩
    have hrender : (Error.io detail).isRenderError := Meaning.isRenderError_of_nodes c d scope.get? _ herr
    cases hrender
  · next h => exact ⟨fun _ => by omega, fun _ => rfl⟩

end Render
end Stencil
