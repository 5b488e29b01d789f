import Stencil.Command.OutputFile
import Stencil.Proofs.Command.Files
import Stencil.Proofs.Render.Sinks

/-! A file that is written through a buffer holds, once it is closed, all that was given to it in its order. What is in the
file, followed by what waits in the buffer, is what was taken so far, and every step keeps it so. -/

namespace Stencil

namespace OutputFile

variable {base : Files} {route : Route} {bytes : List UInt8} {o : OutputFile}

/-- What was taken so far is what is in the file at this place, and then what waits in the buffer. Nothing else changed. -/
structure Holds (base : Files) (route : Route) (bytes : List UInt8) (o : OutputFile) : Prop where
  place : o.route = route
  taken : ∃ written, o.files = base.set route (.file written) ∧ written ++ o.buffer = bytes

namespace Holds

theorem flush (h : o.Holds base route bytes) : o.flush.Holds base route bytes := by
  obtain ⟨hplace, written, hfiles, hbytes⟩ := h
  refine ⟨hplace, written ++ o.buffer, ?_, ?_⟩
  · rw [OutputFile.flush, hplace, hfiles, Files.append_set]
  · rw [OutputFile.flush, hbytes, List.append_nil]

theorem wait (h : o.Holds base route bytes) (new : List UInt8) :
    Holds base route (bytes ++ new) { o with buffer := o.buffer ++ new } := by
  obtain ⟨hplace, written, hfiles, hbytes⟩ := h
  exact ⟨hplace, written, hfiles, by rw [← List.append_assoc, hbytes]⟩

/-- Bytes may pass the buffer by only while nothing waits in it. -/
theorem pass (h : o.Holds base route bytes) (hempty : o.buffer = []) (new : List UInt8) :
    Holds base route (bytes ++ new) { o with files := o.files.append o.route new } := by
  obtain ⟨hplace, written, hfiles, hbytes⟩ := h
  rw [hempty, List.append_nil] at hbytes
  refine ⟨hplace, written ++ new, ?_, ?_⟩
  · rw [hplace, hfiles, Files.append_set]
  · rw [hempty, List.append_nil, hbytes]

theorem put (h : o.Holds base route bytes) (new : List UInt8) : (o.put new).Holds base route (bytes ++ new) := by
  unfold OutputFile.put
  dsimp only
  split
  · exact h.wait new
  · by_cases hflush : capacity - o.buffer.length < new.length
    · rw [if_pos hflush]
      split
      · exact h.flush.pass rfl new
      · exact h.flush.wait new
    · rw [if_neg hflush]
      split
      · next hlarge =>
        have hempty : o.buffer = [] := List.length_eq_zero_iff.1 (by unfold capacity at *; omega)
        exact h.pass hempty new
      · exact h.wait new

theorem writeAll (h : o.Holds base route bytes) (new : List UInt8) :
    ∃ o', writer.writeAll new o = (.ok (), o') ∧ o'.Holds base route (bytes ++ new) := by
  cases new with
  | nil => exact ⟨o, by rw [Writer.writeAll], by rwa [List.append_nil]⟩
  | cons b bs =>
    have all : writer.write (b :: bs) o = (.ok (bs.length + 1), o.put (b :: bs)) := rfl
    refine ⟨o.put (b :: bs), ?_, h.put (b :: bs)⟩
    rw [Writer.writeAll, all]
    dsimp only
    rw [List.drop_length, Writer.writeAll]

theorem emitAll (h : o.Holds base route bytes) (chunks : List String) :
    ∃ o', Outcome.emitAll (.writing writer) chunks o = (.ok (), o') ∧
      o'.Holds base route (bytes ++ chunks.flatMap Text.Utf8.encode) := by
  induction chunks generalizing o bytes with
  | nil => exact ⟨o, rfl, by rwa [List.flatMap_nil, List.append_nil]⟩
  | cons chunk chunks ih =>
    obtain ⟨o₁, hwrite, h₁⟩ := h.writeAll (Text.Utf8.encode chunk)
    obtain ⟨o₂, hrest, h₂⟩ := ih h₁
    have first : (Sink.writing writer).append chunk o = (.ok (), o₁) := by
      rw [Sink.writing]
      dsimp only
      rw [hwrite]
      rfl
    refine ⟨o₂, by rw [Outcome.emitAll, first]; exact hrest, ?_⟩
    rwa [List.flatMap_cons, ← List.append_assoc]

theorem close (h : o.Holds base route bytes) : o.close = base.set route (.file bytes) := by
  obtain ⟨written, hfiles, hbytes⟩ := h.flush.taken
  rw [OutputFile.close, hfiles, ← hbytes]
  exact congrArg (fun b => base.set route (.file b)) (List.append_nil written).symm

end Holds

theorem holds_create {files : Files} {name : String} (h : files.vacancy name = .ok route) :
    ∃ o, create files name = .ok o ∧ o.Holds files route [] := by
  refine ⟨⟨files.write route "", route, []⟩, ?_, rfl, [], ?_, rfl⟩
  · rw [create, h]
    rfl
  · rfl

end OutputFile

/-- What a rendering leaves in a file once that is closed, however it ends, is what it puts together as a text. -/
theorem Render.into_outputFile (c : Config) (d : Markup.Document) (scope : Scope) {base : Files} {route : Route}
    {o : OutputFile} (h : o.Holds base route []) :
    let text := into Sink.text c d scope ""
    let file := into (Sink.writing OutputFile.writer) c d scope o
    file.1 = text.1 ∧ file.2.close = base.write route text.2 := by
  dsimp only
  rw [into_eq_emit, into_eq_emit, Outcome.emit_text, String.empty_append]
  obtain ⟨o', hall, h'⟩ := h.emitAll (Meaning.nodes c d scope.get?).chunks
  rw [Outcome.emit, hall]
  refine ⟨rfl, ?_⟩
  rw [Files.write, Text.Utf8.encode_join]
  exact h'.close

end Stencil
