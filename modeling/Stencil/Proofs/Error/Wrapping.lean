import Mathlib.Data.List.Basic
import Stencil.Error.Chain

/-! Failures that get messages, one around the other. However many there are, what was wrong at first can be told from the whole,
and so can each message: the code, the cause and the layers are read by recursions of their own, and all of them agree. -/

namespace Stencil.Error

/-- A failure with messages around it, of which the last one is outermost. -/
def wrap (messages : List String) (e : Error) : Error := messages.foldl (fun e message => e.withContext message) e

/-- A message is given to a failure, or to a result that failed. -/
inductive Attachment
  | toError (message : String)
  | toResult (message : String)

namespace Attachment

def message : Attachment → String
  | toError message | toResult message => message

def attach {α : Type} (x : Except Error α) : Attachment → Except Error α
  | toError message =>
    match x with
    | .ok a => .ok a
    | .error e => .error (e.withContext message)
  | toResult message => inContext message x

theorem foldl_attach {α : Type} (e : Error) (attachments : List Attachment) :
    attachments.foldl attach (.error e : Except Error α) = .error (e.wrap (attachments.map message)) := by
  induction attachments generalizing e with
  | nil => rfl
  | cons a attachments ih =>
    have step : attach (.error e : Except Error α) a = .error (e.withContext a.message) := by cases a <;> rfl
    rw [List.foldl_cons, step, ih]
    rfl

end Attachment

/-! ### What wrapping keeps and what it adds -/

theorem code_wrap (messages : List String) (e : Error) : (e.wrap messages).code = e.code := by
  induction messages generalizing e with
  | nil => rfl
  | cons m messages ih => exact ih (e.withContext m)

theorem rootCause_wrap (messages : List String) (e : Error) : (e.wrap messages).rootCause = e.rootCause := by
  induction messages generalizing e with
  | nil => rfl
  | cons m messages ih => exact ih (e.withContext m)

theorem isRenderError_wrap (messages : List String) (e : Error) :
    (e.wrap messages).isRenderError = e.isRenderError := by
  rw [isRenderError, rootCause_wrap, isRenderError]

theorem depth_wrap (messages : List String) (e : Error) : (e.wrap messages).depth = messages.length + e.depth := by
  induction messages generalizing e with
  | nil => exact (Nat.zero_add _).symm
  | cons m messages ih =>
    have one : (e.withContext m).depth = e.depth + 1 := rfl
    have later := ih (e.withContext m)
    rw [List.length_cons]
    change ((e.withContext m).wrap messages).depth = _
    omega

theorem messages_wrap (messages : List String) (e : Error) :
    (e.wrap messages).messages = messages.reverse ++ e.messages := by
  induction messages generalizing e with
  | nil => rfl
  | cons m messages ih =>
    have one : (e.withContext m).messages = m :: e.messages := rfl
    change ((e.withContext m).wrap messages).messages = _
    rw [ih, one, List.reverse_cons, List.append_assoc]
    rfl

section

variable {e : Error} (h : e.isWrapper = false)

include h

theorem rootCause_of_not_isWrapper : e.rootCause = e := by
  cases e with
  | withContext => cases h
  | _ => rfl

theorem layers_of_not_isWrapper : e.layers = [e] := by
  cases e with
  | withContext => cases h
  | _ => rfl

theorem messages_of_not_isWrapper : e.messages = [] := by
  rw [messages, layers_of_not_isWrapper h]
  cases e with
  | withContext => cases h
  | _ => rfl

end

/-- Nothing but the cause and the messages makes up a failure. -/
theorem wrap_messages_rootCause (e : Error) : e.rootCause.wrap e.messages.reverse = e := by
  induction e with
  | withContext message source ih =>
    have one : (source.withContext message).messages = message :: source.messages := rfl
    rw [one, List.reverse_cons, wrap, List.foldl_concat]
    exact congrArg (withContext message) ih
  | _ => rfl

theorem intercalate_lines (first : String) (lines : List String) :
    "\n".intercalate (first :: lines) = first ++ String.join (lines.map ("\n" ++ ·)) := by
  induction lines generalizing first with
  | nil => rw [String.intercalate_singleton, List.map_nil, String.join_nil, String.append_empty]
  | cons line lines ih =>
    rw [String.intercalate_cons_cons, ih, List.map_cons, String.join_cons, String.append_assoc, String.append_assoc]

/-- What is seen of a failure with messages around it. -/
structure Wraps (e : Error) (given : List String) (wrapped : Error) : Prop where
  code : wrapped.code = e.code
  isRenderError : wrapped.isRenderError = e.isRenderError
  rootCause : wrapped.rootCause = e
  depth : wrapped.depth = given.length + 1
  messages : wrapped.messages = given.reverse
  logText : wrapped.logText = ": ".intercalate (given.reverse ++ [e.message])
  chainText : wrapped.chainText = "\n".intercalate (e.message :: given.reverse.map ("  " ++ ·))

theorem wraps_wrap {e : Error} (h : e.isWrapper = false) (messages : List String) : Wraps e messages (e.wrap messages) := by
  have cause : (e.wrap messages).rootCause = e := by rw [rootCause_wrap, rootCause_of_not_isWrapper h]
  have around : (e.wrap messages).messages = messages.reverse := by
    rw [messages_wrap, messages_of_not_isWrapper h, List.append_nil]
  constructor
  · exact code_wrap messages e
  · exact isRenderError_wrap messages e
  · exact cause
  · rw [depth_wrap, depth, layers_of_not_isWrapper h]
    rfl
  · exact around
  · rw [logText, around, cause]
  · have indented : ∀ m : String, "\n" ++ ("  " ++ m) = "\n  " ++ m := by
      intro m
      rw [← String.append_assoc]
      rfl
    rw [chainText, around, cause, intercalate_lines, List.map_map]
    exact congrArg (fun f => e.message ++ String.join (messages.reverse.map f)) (funext fun m => (indented m).symm)

theorem Wraps.eq_wrap {e wrapped : Error} {given : List String} (h : Wraps e given wrapped) : wrapped = e.wrap given := by
  rw [← wrap_messages_rootCause wrapped, h.rootCause, h.messages, List.reverse_reverse]

/-- Whatever messages a failure is given, itself or through the result that has it, it is seen in what comes of it, and nothing
else looks like that. -/
theorem attachments_keep_cause {α : Type} {e : Error} (h : e.isWrapper = false) (attachments : List Attachment) :
    ∃ wrapped, attachments.foldl Attachment.attach (.error e : Except Error α) = .error wrapped ∧
      Wraps e (attachments.map Attachment.message) wrapped ∧
      ∀ other, Wraps e (attachments.map Attachment.message) other → other = wrapped :=
  ⟨e.wrap (attachments.map Attachment.message), Attachment.foldl_attach e attachments, wraps_wrap h _,
    fun _ hother => hother.eq_wrap⟩

theorem attachments_keep_cause_page :
    let e := notIterable "string" "name"
    let attachments := [Attachment.toError "in <li>", .toResult "in template page.html"]
    e.isWrapper = false ∧ ∃ wrapped, attachments.foldl Attachment.attach (.error e : Except Error Nat) = .error wrapped ∧
      wrapped.logText = "in template page.html: in <li>: Value of type `string` is not iterable (expression \"name\")" ∧
      wrapped.chainText = "Value of type `string` is not iterable (expression \"name\")\n  in template page.html\n  in <li>" ∧
      Wraps e (attachments.map Attachment.message) wrapped := by
  intro e attachments
  obtain ⟨wrapped, hwrapped, hseen, -⟩ := attachments_keep_cause (α := Nat) (e := e) rfl attachments
  obtain rfl : (e.withContext "in <li>").withContext "in template page.html" = wrapped := Except.error.inj hwrapped
  exact ⟨rfl, _, hwrapped, by decide +kernel, by decide +kernel, hseen⟩

end Stencil.Error
