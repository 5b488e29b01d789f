import Stencil.Proofs.Markup.Balance

/-! Which tokens make a tree, and what is reported of those that make none. The tokens that a builder takes without a
failure are those that leave elements open: balanced runs with the start tags of the open elements between them. A
tree is made if nothing is left open, and the first end tag that does not close the innermost open element is the
failure. -/

namespace Stencil.Markup

/-- What tokens add to a tree. -/
def visibleKinds (ts : List Token) : List TokenKind := (ts.map Token.kind).flatMap TokenKind.visible

/-- Tokens that are balanced but for the start tags of some elements, which are given innermost first, by their names
and positions. -/
inductive LeavesOpen : List Token → List (String × Position) → Prop
  | none {ts : List Token} {ns : List Node} (hn : Balanced ns) (h : visibleKinds ts = kinds ns) : LeavesOpen ts []
  | more {ts us : List Token} {opened : List (String × Position)} {name : String}
      {attrs : List (String × Option String)} {p : Position} {ns : List Node} (before : LeavesOpen ts opened)
      (hvoid : isVoid name = false) (hn : Balanced ns) (h : visibleKinds us = kinds ns) :
      LeavesOpen (ts ++ ⟨.startTag name attrs false, p⟩ :: us) ((name, p) :: opened)

/-- What is wrong with an end tag, if it does not close the innermost open element. -/
def misfit? (opened : List (String × Position)) (name : String) : Option Imbalance :=
  match opened with
  | [] => some (.stray name)
  | (expected, p) :: _ => if expected = name then none else some (.mismatch name expected p)

def Imbalance.toError (x : Imbalance × Position) : Error := .parse x.1.message x.2.line x.2.column

def Document.read (ts : List Token) : Except Error Document := (ofTokens ts).mapError Imbalance.toError

theorem visibleKinds_append (ts us : List Token) : visibleKinds (ts ++ us) = visibleKinds ts ++ visibleKinds us := by
  simp [visibleKinds]

theorem visibleKinds_cons (t : Token) (ts : List Token) : visibleKinds (t :: ts) = t.kind.visible ++ visibleKinds ts := by
  simp [visibleKinds]

/-! ### Leaving elements open -/

/-- A balanced run changes nothing about what is left open. -/
theorem LeavesOpen.append {ts us : List Token} {opened : List (String × Position)} (h : LeavesOpen ts opened)
    {ns : List Node} (hn : Balanced ns) (hus : visibleKinds us = kinds ns) : LeavesOpen (ts ++ us) opened := by
  cases h with
  | none hm hts =>
    refine .none (balanced_append.2 ⟨hm, hn⟩) ?_
    rw [visibleKinds_append, kinds_append, hts, hus]
  | more before hvoid hm hvs =>
    rw [List.append_assoc, List.cons_append]
    refine .more before hvoid (balanced_append.2 ⟨hm, hn⟩) ?_
    rw [visibleKinds_append, kinds_append, hvs, hus]

/-- Tokens that nothing is seen of, such as end tags of void elements, change nothing about it either. -/
theorem LeavesOpen.pass {ts us : List Token} {opened : List (String × Position)} (h : LeavesOpen ts opened)
    (hus : visibleKinds us = []) : LeavesOpen (ts ++ us) opened := by
  have nothing : Balanced [] := trivial
  exact h.append nothing hus

theorem LeavesOpen.nil : LeavesOpen [] [] := by
  have nothing : Balanced [] := trivial
  exact .none nothing rfl

theorem LeavesOpen.opens {ts : List Token} {opened : List (String × Position)} (h : LeavesOpen ts opened)
    {name : String} (hvoid : isVoid name = false) (attrs : List (String × Option String)) (p : Position) :
    LeavesOpen (ts ++ [⟨.startTag name attrs false, p⟩]) ((name, p) :: opened) := by
  have nothing : Balanced [] := trivial
  exact .more h hvoid nothing rfl

/-- The end tag of the innermost open element makes that element part of the balanced run before it. -/
theorem LeavesOpen.close {ts : List Token} {opened : List (String × Position)} {name : String} {p : Position}
    (h : LeavesOpen ts ((name, p) :: opened)) (hts : ∀ t ∈ ts, t.kind.HasDistinctAttrs) (q : Position) :
    LeavesOpen (ts ++ [⟨.endTag name, q⟩]) opened := by
  cases h with
  | @more ts us _ _ attrs _ ns before hvoid hn hus =>
    have hattrs : (attrs.map Prod.fst).Nodup := hts ⟨.startTag name attrs false, p⟩ (by simp)
    have closed : Element.Closed ⟨name, attrs, .endTag⟩ ns := ⟨fun _ => hvoid, nofun, fun h => absurd rfl h⟩
    have balanced : Balanced [.element ⟨name, attrs, .endTag⟩ ns] := ⟨⟨hattrs, closed, hn⟩, trivial⟩
    have run : visibleKinds (⟨.startTag name attrs false, p⟩ :: us ++ [⟨.endTag name, q⟩]) =
        kinds [.element ⟨name, attrs, .endTag⟩ ns] := by
      rw [List.cons_append, visibleKinds_cons, visibleKinds_append, hus]
      simp [visibleKinds, TokenKind.visible, hvoid, kinds, Node.kinds]
    rw [List.append_assoc]
    exact before.append balanced run

namespace Builder

def opened (b : Builder) : List (String × Position) := b.stack.map fun o => (o.element.name, o.position)

theorem opened_add (b : Builder) (n : Node) : (b.add n).opened = b.opened := by
  unfold add
  cases h : b.stack with
  | nil => simp [opened, h]
  | cons parent stack => simp [opened, h]

theorem opened_addAll (b : Builder) (ns : List Node) : (b.addAll ns).opened = b.opened := by
  induction ns generalizing b with
  | nil => rfl
  | cons n ns ih => exact (ih (b.add n)).trans (opened_add b n)

/-- An end tag fails exactly if it belongs to no void element and does not close the innermost open one. -/
theorem closeTag_error_iff {b : Builder} {name : String} {p : Position} {x : Imbalance × Position} :
    b.closeTag name p = .error x ↔ isVoid name = false ∧ misfit? b.opened name = some x.1 ∧ x.2 = p := by
  obtain ⟨imbalance, q⟩ := x
  unfold closeTag
  cases hvoid : isVoid name with
  | true => simp
  | false =>
    cases hs : b.stack with
    | nil => simp [misfit?, opened, hs, eq_comm]
    | cons current stack => by_cases hname : current.element.name = name <;> simp [misfit?, opened, hs, hname, eq_comm]

theorem opened_of_closeTag {b b' : Builder} {name : String} {p : Position} (hvoid : isVoid name = false)
    (h : b.closeTag name p = .ok b') : ∃ q, b.opened = (name, q) :: b'.opened := by
  unfold closeTag at h
  rw [if_neg (by simp [hvoid])] at h
  cases hs : b.stack with
  | nil => simp [hs] at h
  | cons current stack =>
    simp only [hs] at h
    by_cases hname : current.element.name = name
    · rw [if_pos hname] at h
      obtain rfl := Except.ok.inj h
      rw [opened_add]
      exact ⟨current.position, by simp [opened, hs, hname]⟩
    · rw [if_neg hname] at h
      cases h

theorem step_error {b : Builder} {t : Token} {x : Imbalance × Position} (h : b.step t = .error x) :
    ∃ name, t.kind = .endTag name ∧ isVoid name = false ∧ misfit? b.opened name = some x.1 ∧ x.2 = t.position := by
  obtain ⟨kind, position⟩ := t
  cases kind with
  | endTag name => exact ⟨name, rfl, closeTag_error_iff.1 h⟩
  | text s => cases h
  | startTag name attrs selfClosing => cases h
  | eof => cases h

/-- Tokens that a builder takes leave open what it has open. -/
theorem leavesOpen_step {b b' : Builder} {ts : List Token} {t : Token} (h : LeavesOpen ts b.opened)
    (hts : ∀ u ∈ ts ++ [t], u.kind.HasDistinctAttrs) (hstep : b.step t = .ok b') : LeavesOpen (ts ++ [t]) b'.opened := by
  obtain ⟨kind, position⟩ := t
  have adds : ∀ n : Node, n.Balanced → visibleKinds [⟨kind, position⟩] = kinds [n] →
      LeavesOpen (ts ++ [⟨kind, position⟩]) (b.add n).opened := by
    intro n hn hkinds
    have balanced : Balanced [n] := ⟨hn, trivial⟩
    rw [opened_add]
    exact h.append balanced hkinds
  cases kind with
  | text s =>
    obtain rfl := Except.ok.inj hstep
    exact adds _ trivial rfl
  | eof =>
    obtain rfl := Except.ok.inj hstep
    exact h.pass rfl
  | endTag name =>
    cases hvoid : isVoid name with
    | true =>
      obtain rfl : b = b' := by simpa [step, closeTag, hvoid] using hstep
      exact h.pass (by simp [visibleKinds, TokenKind.visible, hvoid])
    | false =>
      obtain ⟨q, hopened⟩ := opened_of_closeTag hvoid hstep
      rw [hopened] at h
      exact h.close (fun u hu => hts u (by simp [hu])) position
  | startTag name attrs selfClosing =>
    obtain rfl := Except.ok.inj hstep
    have hattrs : (attrs.map Prod.fst).Nodup := hts ⟨.startTag name attrs selfClosing, position⟩ (by simp)
    cases selfClosing with
    | true =>
      have closed : Element.Closed ⟨name, attrs, .selfClosing⟩ [] :=
        ⟨fun h => Closing.noConfusion h, fun h => Closing.noConfusion h, fun _ => rfl⟩
      simp only [elementOf, if_true, openTag, ofList_of_nodup hattrs]
      exact adds _ ⟨hattrs, closed, trivial⟩ rfl
    | false =>
      cases hvoid : isVoid name with
      | true =>
        have closed : Element.Closed ⟨name, attrs, .void⟩ [] :=
          ⟨fun h => Closing.noConfusion h, fun _ => hvoid, fun _ => rfl⟩
        simp only [elementOf, Bool.false_eq_true, if_false, hvoid, if_true, openTag, ofList_of_nodup hattrs]
        exact adds _ ⟨hattrs, closed, trivial⟩ rfl
      | false =>
        simp only [elementOf, Bool.false_eq_true, if_false, hvoid, openTag]
        exact h.opens hvoid attrs position

theorem leavesOpen_foldlM {b b' : Builder} {ts us : List Token} (h : LeavesOpen ts b.opened)
    (hts : ∀ t ∈ ts ++ us, t.kind.HasDistinctAttrs) (hfold : us.foldlM step b = .ok b') :
    LeavesOpen (ts ++ us) b'.opened := by
  induction us generalizing b ts with
  | nil =>
    obtain rfl := Except.ok.inj hfold
    rwa [List.append_nil]
  | cons t us ih =>
    rw [← List.singleton_append, ← List.append_assoc] at hts ⊢
    rw [List.foldlM_cons] at hfold
    cases ht : b.step t with
    | error x => rw [ht] at hfold; cases hfold
    | ok b₁ =>
      rw [ht] at hfold
      exact ih (leavesOpen_step h (fun u hu => hts u (List.mem_append_left _ hu)) ht) hts hfold

theorem step_of_visible_nil {t : Token} (h : t.kind.visible = []) (b : Builder) : b.step t = .ok b := by
  obtain ⟨kind, position⟩ := t
  cases kind with
  | endTag name =>
    have hvoid : isVoid name = true := by simpa [TokenKind.visible] using h
    simp [step, closeTag, hvoid]
  | eof => rfl
  | text s => cases h
  | startTag name attrs selfClosing => cases h

theorem visible_eq (k : TokenKind) : k.visible = [] ∨ k.visible = [k] := by
  cases k with
  | endTag name => cases hvoid : isVoid name <;> simp [TokenKind.visible, hvoid]
  | eof => exact .inl rfl
  | text s => exact .inr rfl
  | startTag name attrs selfClosing => exact .inr rfl

/-- A builder takes tokens as it takes the visible ones of them. -/
theorem foldlM_visible (ts : List Token) :
    ∃ us : List Token, us.map Token.kind = visibleKinds ts ∧ ∀ b, ts.foldlM step b = us.foldlM step b := by
  induction ts with
  | nil => exact ⟨[], rfl, fun _ => rfl⟩
  | cons t ts ih =>
    obtain ⟨us, hkinds, hfold⟩ := ih
    rcases visible_eq t.kind with hv | hv
    · refine ⟨us, by rw [visibleKinds_cons, hv, hkinds, List.nil_append], fun b => ?_⟩
      rw [List.foldlM_cons, step_of_visible_nil hv]
      exact hfold b
    · refine ⟨t :: us, by rw [visibleKinds_cons, hv, List.map_cons, hkinds, List.singleton_append], fun b => ?_⟩
      rw [List.foldlM_cons, List.foldlM_cons]
      exact congrArg (b.step t >>= ·) (funext hfold)

theorem foldlM_balanced {ns : List Node} (hn : Balanced ns) {ts : List Token} (h : visibleKinds ts = kinds ns)
    (b : Builder) : ts.foldlM step b = .ok (b.addAll ns) := by
  obtain ⟨us, hkinds, hfold⟩ := foldlM_visible ts
  rw [hfold]
  exact step_kinds hn b us (hkinds.trans h)

theorem foldlM_of_leavesOpen {ts : List Token} {opened : List (String × Position)} (h : LeavesOpen ts opened) :
    ∃ b, ts.foldlM step .empty = .ok b ∧ b.opened = opened := by
  induction h with
  | none hn hts => exact ⟨_, foldlM_balanced hn hts .empty, opened_addAll .empty _⟩
  | @more ts us opened name attrs p ns _ hvoid hn hus ih =>
    obtain ⟨b, hb, hopened⟩ := ih
    let b₁ : Builder := { b with stack := ⟨⟨name, Named.ofList attrs, .endTag⟩, p, []⟩ :: b.stack }
    have hstep : step b ⟨.startTag name attrs false, p⟩ = .ok b₁ := by simp [b₁, step, elementOf, hvoid, openTag]
    have hb₁ : b₁.opened = (name, p) :: opened := congrArg ((name, p) :: ·) hopened
    refine ⟨b₁.addAll ns, ?_, (opened_addAll b₁ ns).trans hb₁⟩
    rw [foldlM_append_ok hb, List.foldlM_cons, hstep]
    exact foldlM_balanced hn hus b₁

theorem foldlM_error_iff {b : Builder} {ts : List Token} {x : Imbalance × Position} :
    ts.foldlM step b = .error x ↔
      ∃ before t after b', ts = before ++ t :: after ∧ before.foldlM step b = .ok b' ∧ b'.step t = .error x := by
  constructor
  · intro h
    induction ts generalizing b with
    | nil => cases h
    | cons t ts ih =>
      rw [List.foldlM_cons] at h
      cases ht : b.step t with
      | error y =>
        rw [ht] at h
        obtain rfl : y = x := Except.error.inj h
        exact ⟨[], t, ts, b, rfl, rfl, ht⟩
      | ok b₁ =>
        rw [ht] at h
        obtain ⟨before, u, after, b', rfl, hbefore, hu⟩ := ih h
        refine ⟨t :: before, u, after, b', rfl, ?_, hu⟩
        rw [List.foldlM_cons, ht]
        exact hbefore
  · rintro ⟨before, t, after, b', rfl, hbefore, ht⟩
    rw [foldlM_append_ok hbefore, List.foldlM_cons, ht]
    rfl

end Builder

/-! ### Reading tokens -/

/-- An end tag that does not close the innermost open element, after tokens in which every end tag does. -/
def Misfits (ts : List Token) (x : Imbalance × Position) : Prop :=
  ∃ before after opened name, ts = before ++ ⟨.endTag name, x.2⟩ :: after ∧ LeavesOpen before opened ∧
    isVoid name = false ∧ misfit? opened name = some x.1

/-- The innermost of the elements that are left open. -/
def Unclosed (ts : List Token) (x : Imbalance × Position) : Prop :=
  ∃ opened name, LeavesOpen ts ((name, x.2) :: opened) ∧ x.1 = .unclosed name

section

variable {body : List Token} {x : Imbalance × Position}

theorem misfits_iff (hbody : ∀ t ∈ body, t.kind.HasDistinctAttrs) :
    body.foldlM Builder.step .empty = .error x ↔ Misfits body x := by
  rw [Builder.foldlM_error_iff]
  constructor
  · rintro ⟨before, ⟨kind, position⟩, after, b, rfl, hbefore, ht⟩
    obtain ⟨name, rfl, hvoid, hmisfit, hx⟩ := Builder.step_error ht
    have distinct : ∀ t ∈ [] ++ before, t.kind.HasDistinctAttrs := fun t h => hbody t (List.mem_append_left _ h)
    have start : LeavesOpen [] Builder.empty.opened := .nil
    have leaves := Builder.leavesOpen_foldlM start distinct hbefore
    exact ⟨before, after, b.opened, name, by rw [hx], leaves, hvoid, hmisfit⟩
  · rintro ⟨before, after, opened, name, rfl, hleaves, hvoid, hmisfit⟩
    obtain ⟨b, hb, rfl⟩ := Builder.foldlM_of_leavesOpen hleaves
    exact ⟨before, _, after, b, rfl, hb, Builder.closeTag_error_iff.2 ⟨hvoid, hmisfit, rfl⟩⟩

theorem finish_error_iff {b : Builder} :
    b.finish = .error x ↔ ∃ opened name, b.opened = (name, x.2) :: opened ∧ x.1 = .unclosed name := by
  obtain ⟨imbalance, p⟩ := x
  unfold Builder.finish
  cases hs : b.stack with
  | nil => simp [Builder.opened, hs]
  | cons o stack =>
    simp only [Builder.opened, hs, Except.error.injEq, Prod.mk.injEq, List.map_cons, List.cons.injEq]
    constructor
    · rintro ⟨rfl, rfl⟩
      exact ⟨_, _, ⟨⟨rfl, rfl⟩, rfl⟩, rfl⟩
    · rintro ⟨opened, name, ⟨⟨rfl, rfl⟩, -⟩, rfl⟩
      exact ⟨rfl, rfl⟩

theorem unclosed_iff (hbody : ∀ t ∈ body, t.kind.HasDistinctAttrs) :
    (∃ b, body.foldlM Builder.step .empty = .ok b ∧ b.finish = .error x) ↔ Unclosed body x := by
  constructor
  · rintro ⟨b, hb, hx⟩
    obtain ⟨opened, name, hopened, hname⟩ := finish_error_iff.1 hx
    have start : LeavesOpen [] Builder.empty.opened := .nil
    have leaves := Builder.leavesOpen_foldlM start hbody hb
    rw [hopened] at leaves
    exact ⟨opened, name, leaves, hname⟩
  · rintro ⟨opened, name, hleaves, hname⟩
    obtain ⟨b, hb, hopened⟩ := Builder.foldlM_of_leavesOpen hleaves
    exact ⟨b, hb, finish_error_iff.2 ⟨opened, name, hopened, hname⟩⟩

end

theorem ofTokens_eof (body : List Token) (p : Position) :
    Document.ofTokens (body ++ [⟨.eof, p⟩]) = body.foldlM Builder.step .empty >>= Builder.finish := by
  unfold Document.ofTokens
  rw [List.foldlM_append]
  cases body.foldlM Builder.step .empty <;> rfl

theorem ofTokens_error_iff {body : List Token} (hbody : ∀ t ∈ body, t.kind.HasDistinctAttrs) (p : Position)
    {x : Imbalance × Position} :
    Document.ofTokens (body ++ [⟨.eof, p⟩]) = .error x ↔ Misfits body x ∨ Unclosed body x := by
  rw [ofTokens_eof, ← misfits_iff hbody, ← unclosed_iff hbody]
  cases h : body.foldlM Builder.step .empty with
  | error y => simp [bind, Except.bind]
  | ok b => simp [bind, Except.bind]

/-- A balanced tree of which tokens are all that is visible. -/
def MakesTree (ts : List Token) (d : Document) : Prop := Balanced d ∧ visibleKinds ts = kinds d

theorem ofTokens_ok_iff {body : List Token} (hbody : ∀ t ∈ body, t.kind.HasDistinctAttrs) (p : Position)
    {d : Document} : Document.ofTokens (body ++ [⟨.eof, p⟩]) = .ok d ↔ MakesTree body d := by
  constructor
  · intro h
    have distinct : ∀ t ∈ body ++ [⟨.eof, p⟩], t.kind.HasDistinctAttrs := by
      rw [List.forall_mem_append]
      exact ⟨hbody, by simp [TokenKind.HasDistinctAttrs]⟩
    obtain ⟨hkinds, hbalanced⟩ := kinds_of_ofTokens distinct h
    exact ⟨hbalanced, by simpa [visibleKinds, TokenKind.visible] using hkinds⟩
  · rintro ⟨hbalanced, hkinds⟩
    rw [ofTokens_eof, Builder.foldlM_balanced hbalanced hkinds, Builder.nodes_addAll _ rfl]
    exact congrArg Except.ok (by simp [Builder.empty])

section MapError

variable {α ε ε' : Type} {x : Except ε α} {f : ε → ε'}

theorem mapError_ok_iff {a : α} : x.mapError f = .ok a ↔ x = .ok a := by
  cases x with
  | error e => exact ⟨fun h => (by cases h), fun h => (by cases h)⟩
  | ok b => exact ⟨fun h => congrArg _ (Except.ok.inj h), fun h => congrArg _ (Except.ok.inj h)⟩

theorem mapError_error_iff {e' : ε'} : x.mapError f = .error e' ↔ ∃ e, x = .error e ∧ e' = f e := by
  cases x with
  | error e =>
    refine ⟨fun h => ⟨e, rfl, (Except.error.inj h).symm⟩, ?_⟩
    rintro ⟨_, h, rfl⟩
    rw [Except.error.inj h]
    rfl
  | ok b =>
    refine ⟨fun h => (by cases h), ?_⟩
    rintro ⟨_, h, -⟩
    cases h

end MapError

/-- Tokens make a tree exactly if they are, but for the end tags of void elements, those that a balanced tree is written
out to, and that tree is the only one. Else the first end tag that does not close the innermost open element is
reported, or the innermost element that is left open. -/
theorem read_tokens_iff {body : List Token} (hbody : ∀ t ∈ body, t.kind.HasDistinctAttrs) (p : Position) :
    let result := Document.read (body ++ [⟨.eof, p⟩])
    (∀ d, result = .ok d ↔ MakesTree body d) ∧ (∀ d d', MakesTree body d → MakesTree body d' → d = d') ∧
      ∀ err, result = .error err ↔ ∃ x, (Misfits body x ∨ Unclosed body x) ∧ err = Imbalance.toError x := by
  have ok_iff : ∀ d, Document.read (body ++ [⟨.eof, p⟩]) = .ok d ↔ MakesTree body d := by
    intro d
    rw [← ofTokens_ok_iff hbody p]
    exact mapError_ok_iff
  refine ⟨ok_iff, fun d d' hd hd' => ?_, fun err => ?_⟩
  · have same := ((ok_iff d).2 hd).symm.trans ((ok_iff d').2 hd')
    exact Except.ok.inj same
  · simp only [← ofTokens_error_iff hbody p]
    exact mapError_error_iff

def paragraphTokens (closing : String) : List Token :=
  [⟨.startTag "p" [("id", some "x"), ("hidden", none)] false, ⟨1, 1⟩⟩, ⟨.text "a", ⟨1, 20⟩⟩,
    ⟨.startTag "br" [] false, ⟨2, 1⟩⟩, ⟨.endTag "br", ⟨2, 5⟩⟩, ⟨.endTag closing, ⟨2, 10⟩⟩]

theorem read_paragraphTokens :
    (∀ t ∈ paragraphTokens "p", t.kind.HasDistinctAttrs) ∧ (∀ t ∈ paragraphTokens "div", t.kind.HasDistinctAttrs) ∧
      Document.read (paragraphTokens "p" ++ [⟨.eof, ⟨2, 14⟩⟩]) =
        .ok [.element ⟨"p", [("id", some "x"), ("hidden", none)], .endTag⟩ [.text "a", .element ⟨"br", [], .void⟩ []]] ∧
      Document.read (paragraphTokens "div" ++ [⟨.eof, ⟨2, 16⟩⟩]) =
        .error (.parse "unexpected </div>, expected </p> (opened at 1:1)" 2 10) := by
  have distinct : ∀ name, ∀ t ∈ paragraphTokens name, t.kind.HasDistinctAttrs := by
    intro name t ht
    simp only [paragraphTokens, List.mem_cons, List.not_mem_nil, or_false] at ht
    rcases ht with rfl | rfl | rfl | rfl | rfl <;> simp [TokenKind.HasDistinctAttrs]
  have notVoid : isVoid "p" = false := by decide +kernel
  have void : isVoid "br" = true := by decide +kernel
  have other : isVoid "div" = false := by decide +kernel
  have balanced : Balanced [.text "a", .element ⟨"br", [], .void⟩ []] :=
    ⟨trivial, ⟨by simp, ⟨nofun, fun _ => void, fun _ => rfl⟩, trivial⟩, trivial⟩
  refine ⟨distinct "p", distinct "div", ?_, ?_⟩
  · refine ((read_tokens_iff (distinct "p") ⟨2, 14⟩).1 _).2 ⟨?_, ?_⟩
    · exact ⟨⟨by simp, ⟨fun _ => notVoid, nofun, fun h => absurd rfl h⟩, balanced⟩, trivial⟩
    · simp [paragraphTokens, visibleKinds, TokenKind.visible, notVoid, void, kinds, Node.kinds]
  · refine ((read_tokens_iff (distinct "div") ⟨2, 16⟩).2.2 _).2 ⟨(.mismatch "div" "p" ⟨1, 1⟩, ⟨2, 10⟩), .inl ?_, rfl⟩
    have inner : LeavesOpen ((paragraphTokens "div").take 4) [("p", ⟨1, 1⟩)] := by
      refine LeavesOpen.more .nil notVoid balanced ?_
      simp [visibleKinds, TokenKind.visible, void, kinds, Node.kinds]
    exact ⟨_, [], _, "div", rfl, inner, other, by simp [misfit?]⟩

end Stencil.Markup
