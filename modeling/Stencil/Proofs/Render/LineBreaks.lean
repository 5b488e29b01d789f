import Stencil.Proofs.Markup.Balance
import Stencil.Proofs.Render.Scoping

/-! Line breaks. What a document means is told here in pieces that know what they are, without a word about line breaks.
The chunks of a rendering are these pieces, and line breaks put a newline after each piece that is no closing tag. -/

namespace Stencil

open Markup

/-- A part of what is put out: an opening tag, also of an element that has no other, a text, or a closing tag. -/
inductive Piece
  | opening (tag : String)
  | text (content : String)
  | closing (tag : String)
  deriving Repr, DecidableEq

namespace Piece

def chunk : Piece → String
  | opening tag => tag
  | text content => content
  | closing tag => tag

/-- The chunks of a piece where line breaks are put. -/
def broken : Piece → List String
  | opening tag => [tag, "\n"]
  | text content => [content, "\n"]
  | closing tag => [tag]

end Piece

/-- Pieces in their order, and how the evaluation that yields them ends. -/
structure Transcript where
  pieces : List Piece
  result : Except Error Unit

namespace Transcript

def done : Transcript := ⟨[], .ok ()⟩

def of (p : Piece) : Transcript := ⟨[p], .ok ()⟩

/-- Both transcripts, or the first alone if it fails. -/
def andThen (a b : Transcript) : Transcript :=
  match a.result with
  | .ok () => ⟨a.pieces ++ b.pieces, b.result⟩
  | .error _ => a

def given {α : Type} (x : Except Error α) (f : α → Transcript) : Transcript :=
  match x with
  | .ok a => f a
  | .error e => ⟨[], .error e⟩

def text (content : String) : Transcript :=
  match Text.trim content.toList with
  | [] => done
  | cs => of (.text (String.ofList cs))

/-- The element once: an opening tag alone, or around the text of its directive or its children an opening and a closing
tag. -/
def once (c : Config) (e : Element) (body : Environment → Transcript) (env : Environment) : Transcript :=
  let opening := fun terminator => of (.opening (Render.openTag c e terminator))
  let closing := of (.closing (Render.closeTag e))
  match e.attr? c.textAttr with
  | some value => .given (Meaning.content c env value) fun s => (opening ">").andThen ((of (.text s)).andThen closing)
  | none =>
    match e.closing with
    | .selfClosing => opening "/>"
    | .void => opening ">"
    | .endTag => (opening ">").andThen ((body env).andThen closing)

def loop (c : Config) (e : Element) (body : Environment → Transcript) (env : Environment) (variableName : String)
    (items : List Value) : Transcript :=
  items.foldr (fun item rest => (once c e body (env.bind variableName item)).andThen rest) done

def element (c : Config) (e : Element) (body : Environment → Transcript) (env : Environment) : Transcript :=
  .given (Meaning.treatment c e env) fun
    | .skip => done
    | .once => once c e body env
    | .loop variableName items => loop c e body env variableName items

mutual

def node (c : Config) : Node → Environment → Transcript
  | .text content, _ => text content
  | .element e children, env => element c e (nodes c children) env

def nodes (c : Config) : List Node → Environment → Transcript
  | [], _ => done
  | n :: ns, env => (node c n env).andThen (nodes c ns env)

end

/-! ### Chunks -/

def outcome (lineBreaks : Bool) (t : Transcript) : Outcome :=
  ⟨if lineBreaks then t.pieces.flatMap Piece.broken else t.pieces.map Piece.chunk, t.result⟩

variable {c : Config}

theorem andThen_ok {a : Transcript} (h : a.result = .ok ()) (b : Transcript) :
    a.andThen b = ⟨a.pieces ++ b.pieces, b.result⟩ := by
  simp [andThen, h]

theorem andThen_error {a : Transcript} {err : Error} (h : a.result = .error err) (b : Transcript) : a.andThen b = a := by
  simp [andThen, h]

theorem outcome_done (lineBreaks : Bool) : done.outcome lineBreaks = .done := by
  cases lineBreaks <;> rfl

theorem outcome_andThen (lineBreaks : Bool) (a b : Transcript) :
    (a.andThen b).outcome lineBreaks = (a.outcome lineBreaks).andThen (b.outcome lineBreaks) := by
  rcases h : a.result with err | ⟨⟩
  · have failed : (a.outcome lineBreaks).result = .error err := h
    rw [andThen_error h, Outcome.andThen_error failed]
  · have succeeded : (a.outcome lineBreaks).result = .ok () := h
    rw [andThen_ok h, Outcome.andThen_ok succeeded]
    unfold outcome
    cases lineBreaks <;> simp

theorem outcome_given {α : Type} (lineBreaks : Bool) (x : Except Error α) (f : α → Transcript) :
    (given x f).outcome lineBreaks = .given x fun a => (f a).outcome lineBreaks := by
  cases x with
  | error err => cases lineBreaks <;> rfl
  | ok a => rfl

theorem outcome_opening (tag : String) : (of (.opening tag)).outcome c.lineBreaks = Meaning.line c tag := by
  unfold Meaning.line
  cases c.lineBreaks <;> rfl

theorem outcome_text_piece (content : String) : (of (.text content)).outcome c.lineBreaks = Meaning.line c content := by
  unfold Meaning.line
  cases c.lineBreaks <;> rfl

theorem outcome_closing (e : Element) :
    (of (.closing (Render.closeTag e))).outcome c.lineBreaks = Meaning.closeTag e := by
  cases c.lineBreaks <;> rfl

theorem outcome_text (content : String) : (text content).outcome c.lineBreaks = Meaning.text c content := by
  unfold text Meaning.text
  cases h : Text.trim content.toList with
  | nil =>
    rw [if_pos (List.all_eq_true.2 (Text.trim_eq_nil_iff.1 h))]
    exact outcome_done _
  | cons x xs =>
    rw [if_neg fun blank => by simp [Text.trim_eq_nil_of_blank (List.all_eq_true.1 blank)] at h]
    exact outcome_text_piece _

theorem outcome_openTag (e : Element) (terminator : String) :
    (of (.opening (Render.openTag c e terminator))).outcome c.lineBreaks = Meaning.openTag c e terminator := by
  rw [outcome_opening, Meaning.openTag, Render.shownAttrs_eq]
  rfl

section Body

variable {body : Environment → Transcript} {meaning : Environment → Outcome}
  (h : ∀ env, (body env).outcome c.lineBreaks = meaning env)

include h

theorem outcome_once (e : Element) (env : Environment) :
    (once c e body env).outcome c.lineBreaks = Meaning.once c e meaning env := by
  unfold once Meaning.once
  cases e.attr? c.textAttr with
  | some value =>
    dsimp only
    rw [outcome_given]
    congr 1
    funext s
    rw [outcome_andThen, outcome_andThen, outcome_openTag, outcome_text_piece, outcome_closing]
  | none =>
    cases e.closing with
    | selfClosing => exact outcome_openTag e "/>"
    | void => exact outcome_openTag e ">"
    | endTag =>
      dsimp only
      rw [outcome_andThen, outcome_andThen, outcome_openTag, outcome_closing, h]

theorem outcome_loop (e : Element) (env : Environment) (x : String) (items : List Value) :
    (loop c e body env x items).outcome c.lineBreaks = Meaning.loop c e meaning env x items := by
  unfold loop Meaning.loop
  induction items with
  | nil => exact outcome_done _
  | cons item items ih => rw [List.foldr_cons, List.foldr_cons, outcome_andThen, outcome_once h, ih]

theorem outcome_element (e : Element) (env : Environment) :
    (element c e body env).outcome c.lineBreaks = Meaning.element c e meaning env := by
  rw [element, outcome_given, Render.meaning_element_eq]
  congr 1
  funext treatment
  cases treatment with
  | skip => exact outcome_done _
  | once => exact outcome_once h e env
  | loop x items => exact outcome_loop h e env x items

end Body

/-- The chunks of what nodes mean are their pieces, with a newline after some of them if line breaks are put. -/
theorem outcome_nodes (ns : List Node) (env : Environment) :
    (nodes c ns env).outcome c.lineBreaks = Meaning.nodes c ns env := by
  induction ns using nodes_induction generalizing env with
  | nil => exact outcome_done _
  | text content ns ih => rw [nodes, Meaning.nodes, outcome_andThen, ih, node, Meaning.node, outcome_text]
  | element e children ns ihc ih =>
    rw [nodes, Meaning.nodes, outcome_andThen, ih, node, Meaning.node, outcome_element ihc]

end Transcript

/-! ### Two configurations -/

def Config.withLineBreaks (c : Config) (lineBreaks : Bool) : Config := { c with lineBreaks }

namespace Transcript

theorem nodes_withLineBreaks (c : Config) (lineBreaks : Bool) (ns : List Node) :
    nodes (c.withLineBreaks lineBreaks) ns = nodes c ns := by
  induction ns using nodes_induction with
  | nil => rfl
  | text content ns ih =>
    funext env
    rw [nodes, nodes, ih, node, node]
  | element e children ns ihc ih =>
    funext env
    have same : ∀ body, element (c.withLineBreaks lineBreaks) e body env = element c e body env := by
      intro body
      rfl
    rw [nodes, nodes, ih, node, node, ihc, same]

/-- With line breaks or without them, nodes mean the same pieces. -/
theorem outcome_nodes_withLineBreaks (c : Config) (lineBreaks : Bool) (ns : List Node) (env : Environment) :
    Meaning.nodes (c.withLineBreaks lineBreaks) ns env = (nodes c ns env).outcome lineBreaks := by
  have pieces := outcome_nodes (c := c.withLineBreaks lineBreaks) ns env
  rw [nodes_withLineBreaks] at pieces
  exact pieces.symm

end Transcript

namespace Render

/-- Line breaks put a newline after each opening tag and each text, and after nothing else. Whether they are put or not, the
rendering ends alike and the scope shows what it showed before. -/
theorem document_lineBreaks (c : Config) (d : Document) (scope : Scope) (log : Array Note) :
    let told := Transcript.nodes c d scope.get?
    let plain := document Sink.chunks (c.withLineBreaks false) d ⟨scope, #[], log⟩
    let broken := document Sink.chunks (c.withLineBreaks true) d ⟨scope, #[], log⟩
    plain.2.out.toList = told.pieces.map Piece.chunk ∧ broken.2.out.toList = told.pieces.flatMap Piece.broken ∧
      plain.1 = told.result ∧ broken.1 = told.result ∧
      plain.2.scope.get? = scope.get? ∧ broken.2.scope.get? = scope.get? := by
  intro told plain broken
  have run : ∀ lineBreaks : Bool,
      let after := document Sink.chunks (c.withLineBreaks lineBreaks) d ⟨scope, #[], log⟩
      after.2.out.toList = (told.outcome lineBreaks).chunks ∧ after.1 = told.result ∧
        after.2.scope.get? = scope.get? := by
    intro lineBreaks
    have means : Rendering.Means Sink.chunks (document Sink.chunks (c.withLineBreaks lineBreaks) d)
        (Meaning.nodes (c.withLineBreaks lineBreaks) d) := means_document d
    obtain ⟨hrun, hscope⟩ := means ⟨scope, #[], log⟩
    rw [Transcript.outcome_nodes_withLineBreaks, Outcome.emit_chunks, Prod.mk.injEq] at hrun
    obtain ⟨hresult, hout⟩ := hrun
    refine ⟨?_, hresult, hscope⟩
    dsimp only at hout ⊢
    rw [hout]
    simp [told]
  obtain ⟨hplain, hplainResult, hplainScope⟩ := run false
  obtain ⟨hbroken, hbrokenResult, hbrokenScope⟩ := run true
  exact ⟨hplain, hbroken, hplainResult, hbrokenResult, hplainScope, hbrokenScope⟩

/-- The text of a directive is a piece also where it is empty, and neither blank text nor an element that is not shown
is one. -/
example :
    (Transcript.nodes {}
      [.text " ", .element ⟨"br", [], .void⟩ [], .element ⟨"p", [("t:text", some "$\x7bx\x7d")], .endTag⟩ [],
        .element ⟨"i", [("t:if", some "$\x7bx\x7d")], .endTag⟩ []] fun _ => some .null).pieces =
      [.opening "<br>", .opening "<p>", .text "", .closing "</p>"] := by
  decide +kernel

end Render

end Stencil
