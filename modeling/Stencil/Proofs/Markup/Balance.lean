import Stencil.Markup.Tree

/-! Trees and the kinds of tokens that make them. A builder that has taken tokens holds nodes and open elements with
exactly those kinds, so a tree is made of the kinds that it is written out to, and of no others but the end tags of
void elements. -/

namespace Stencil.Markup

mutual

/-- The kinds of tokens that a node is written out to. -/
def Node.kinds : Node → List TokenKind
  | .text s => [.text s]
  | .element e children =>
    match e.closing with
    | .endTag => .startTag e.name e.attrs false :: (kinds children ++ [.endTag e.name])
    | .selfClosing => [.startTag e.name e.attrs true]
    | .void => [.startTag e.name e.attrs false]

def kinds : List Node → List TokenKind
  | [] => []
  | n :: ns => n.kinds ++ kinds ns

end

/-- Induction on a list of nodes and on the children in it. -/
@[elab_as_elim]
theorem nodes_induction {motive : List Node → Prop} (nil : motive [])
    (text : ∀ s ns, motive ns → motive (.text s :: ns))
    (element : ∀ e children ns, motive children → motive ns → motive (.element e children :: ns)) :
    ∀ ns, motive ns
  | [] => nil
  | .text s :: ns => text s ns (nodes_induction nil text element ns)
  | .element e children :: ns =>
    element e children ns (nodes_induction nil text element children) (nodes_induction nil text element ns)

/-- An element that is closed as its name allows, with children only if it has an end tag. -/
structure Element.Closed (e : Element) (children : List Node) : Prop where
  endTag : e.closing = .endTag → isVoid e.name = false
  void : e.closing = .void → isVoid e.name = true
  childless : e.closing ≠ .endTag → children = []

mutual

/-- Every element is closed as its name allows, and has attributes of different names. -/
def Node.Balanced : Node → Prop
  | .text _ => True
  | .element e children => (e.attrs.map Prod.fst).Nodup ∧ e.Closed children ∧ Balanced children

def Balanced : List Node → Prop
  | [] => True
  | n :: ns => n.Balanced ∧ Balanced ns

end

theorem kinds_append (ms ns : List Node) : kinds (ms ++ ns) = kinds ms ++ kinds ns := by
  induction ms with
  | nil => rfl
  | cons m ms ih => rw [List.cons_append, kinds, kinds, ih, List.append_assoc]

theorem forall_kinds_element {p : TokenKind → Prop} {e : Element} {children ns : List Node}
    (start : ∀ selfClosing, p (.startTag e.name e.attrs selfClosing)) (stop : e.closing = .endTag → p (.endTag e.name))
    (inner : ∀ k ∈ kinds children, p k) (rest : ∀ k ∈ kinds ns, p k) : ∀ k ∈ kinds (.element e children :: ns), p k := by
  intro k hk
  rw [kinds, Node.kinds] at hk
  rcases List.mem_append.1 hk with hk | hk
  · cases hc : e.closing with
    | endTag =>
      simp only [hc, List.mem_cons, List.mem_append, List.not_mem_nil, or_false] at hk
      rcases hk with rfl | hk | rfl
      · exact start false
      · exact inner k hk
      · exact stop hc
    | selfClosing =>
      simp only [hc, List.mem_singleton] at hk
      exact hk ▸ start true
    | void =>
      simp only [hc, List.mem_singleton] at hk
      exact hk ▸ start false
  · exact rest k hk

theorem balanced_append {ms ns : List Node} : Balanced (ms ++ ns) ↔ Balanced ms ∧ Balanced ns := by
  induction ms with
  | nil => simp [Balanced]
  | cons m ms ih => rw [List.cons_append, Balanced, Balanced, ih, and_assoc]

/-- What a token adds to a tree: the end tag of a void element and the end of the source add nothing. -/
def TokenKind.visible : TokenKind → List TokenKind
  | .endTag name => if isVoid name then [] else [.endTag name]
  | .eof => []
  | k => [k]

/-- The attributes of a start tag have different names. -/
def TokenKind.HasDistinctAttrs : TokenKind → Prop
  | .startTag _ attrs _ => (attrs.map Prod.fst).Nodup
  | _ => True

theorem ofList_of_nodup {α : Type} {items : List (String × α)} (h : (items.map Prod.fst).Nodup) :
    Named.ofList items = items := by
  have insert_fresh : ∀ (n : String) (x : α) (s : Named α), n ∉ s.map Prod.fst → s.insert n x = s ++ [(n, x)] := by
    intro n x s
    induction s with
    | nil => exact fun _ => rfl
    | cons m s ih =>
      intro hn
      rw [List.map_cons, List.mem_cons, not_or] at hn
      rw [Named.insert, if_neg (Ne.symm hn.1), ih hn.2]
      rfl
  have taken : ∀ (items s : Named α), ((s ++ items).map Prod.fst).Nodup →
      items.foldl (fun s x => s.insert x.1 x.2) s = s ++ items := by
    intro items
    induction items with
    | nil => simp
    | cons a items ih =>
      intro s hs
      have fresh : a.1 ∉ s.map Prod.fst := by
        rw [List.map_append, List.nodup_append] at hs
        exact fun ha => hs.2.2 _ ha _ (by simp) rfl
      rw [List.foldl_cons, insert_fresh _ _ _ fresh, ih _ (by simpa using hs), List.append_assoc]
      rfl
  exact taken items [] h

namespace Builder

/-- The kinds of tokens that a builder has taken. -/
def taken (b : Builder) : List TokenKind :=
  Markup.kinds b.nodes.reverse ++ b.stack.reverse.flatMap fun o =>
    .startTag o.element.name o.element.attrs false :: Markup.kinds o.children.reverse

/-- All that a builder holds is balanced, and what is open waits for its end tag. -/
structure Valid (b : Builder) : Prop where
  nodes : Balanced b.nodes.reverse
  opened : ∀ o ∈ b.stack, (o.element.attrs.map Prod.fst).Nodup ∧ o.element.closing = .endTag ∧
    isVoid o.element.name = false ∧ Balanced o.children.reverse

theorem valid_empty : empty.Valid := ⟨trivial, nofun⟩

theorem taken_add (b : Builder) (n : Node) : (b.add n).taken = b.taken ++ n.kinds := by
  unfold add taken
  cases b.stack with
  | nil => simp [kinds_append, Markup.kinds]
  | cons parent stack => simp [kinds_append, Markup.kinds]

theorem Valid.add {b : Builder} (hb : b.Valid) {n : Node} (hn : n.Balanced) : (b.add n).Valid := by
  have snoc : ∀ ns : List Node, Balanced ns.reverse → Balanced (n :: ns).reverse := by
    intro ns hns
    rw [List.reverse_cons, balanced_append]
    exact ⟨hns, hn, trivial⟩
  unfold Builder.add
  cases h : b.stack with
  | nil => exact ⟨snoc _ hb.nodes, by simp⟩
  | cons parent stack =>
    refine ⟨hb.nodes, fun o ho => ?_⟩
    rcases List.mem_cons.1 ho with rfl | ho
    · obtain ⟨h1, h2, h3, h4⟩ := hb.opened parent (by simp [h])
      exact ⟨h1, h2, h3, snoc _ h4⟩
    · exact hb.opened o (by simp [h, ho])

theorem taken_openTag {b : Builder} (hb : b.Valid) {e : Element} (he : (e.attrs.map Prod.fst).Nodup)
    (hvoid : e.closing = .void → isVoid e.name = true) (hend : e.closing = .endTag → isVoid e.name = false)
    (p : Position) :
    (b.openTag e p).taken = b.taken ++ [.startTag e.name e.attrs (e.closing == .selfClosing)] ∧
      (b.openTag e p).Valid := by
  obtain ⟨name, attrs, closing⟩ := e
  cases closing with
  | endTag =>
    refine ⟨?_, hb.nodes, fun o ho => ?_⟩
    · simp [openTag, taken, Markup.kinds, show (Closing.endTag == Closing.selfClosing) = false from rfl]
    · rcases List.mem_cons.1 ho with rfl | ho
      · exact ⟨he, rfl, hend rfl, trivial⟩
      · exact hb.opened o ho
  | selfClosing =>
    exact ⟨taken_add b _, hb.add ⟨he, ⟨nofun, nofun, fun _ => rfl⟩, trivial⟩⟩
  | void =>
    exact ⟨taken_add b _, hb.add ⟨he, ⟨nofun, hvoid, fun _ => rfl⟩, trivial⟩⟩

theorem taken_closeTag {b b' : Builder} (hb : b.Valid) {name : String} {p : Position}
    (h : b.closeTag name p = .ok b') : b'.taken = b.taken ++ TokenKind.visible (.endTag name) ∧ b'.Valid := by
  unfold closeTag at h
  by_cases hvoid : isVoid name
  · rw [if_pos hvoid] at h
    obtain rfl := Except.ok.inj h
    exact ⟨by simp [TokenKind.visible, hvoid], hb⟩
  · rw [if_neg hvoid] at h
    cases hs : b.stack with
    | nil => simp [hs] at h
    | cons current stack =>
      simp only [hs] at h
      by_cases hname : current.element.name = name
      · rw [if_pos hname] at h
        obtain rfl := Except.ok.inj h
        obtain ⟨hattrs, hclosing, hnot, hchildren⟩ := hb.opened current (by simp [hs])
        have hrest : Valid { b with stack } := ⟨hb.nodes, fun o ho => hb.opened o (by simp [hs, ho])⟩
        refine ⟨?_, hrest.add ⟨hattrs, ⟨fun _ => hnot, ?_, ?_⟩, hchildren⟩⟩
        · rw [taken_add]
          simp [taken, hs, Node.kinds, hclosing, TokenKind.visible, hvoid, hname]
        · intro hv
          rw [hclosing] at hv
          exact Closing.noConfusion hv
        · exact fun hne => absurd hclosing hne
      · rw [if_neg hname] at h
        cases h

theorem closing_elementOf (name : String) (attrs : List (String × Option String)) (selfClosing : Bool) :
    let e := elementOf name attrs selfClosing
    (e.closing == .selfClosing) = selfClosing ∧ (e.closing = .void → isVoid e.name = true) ∧
      (e.closing = .endTag → isVoid e.name = false) := by
  cases selfClosing with
  | true => exact ⟨rfl, nofun, nofun⟩
  | false => cases h : isVoid name <;> simp [elementOf, h]

/-- One step takes exactly the kind of its token, if that is visible. -/
theorem taken_step {b b' : Builder} {t : Token} (hb : b.Valid) (ht : t.kind.HasDistinctAttrs)
    (h : b.step t = .ok b') : b'.taken = b.taken ++ t.kind.visible ∧ b'.Valid := by
  obtain ⟨kind, position⟩ := t
  cases kind with
  | text s =>
    obtain rfl := Except.ok.inj h
    exact ⟨taken_add b _, hb.add trivial⟩
  | eof =>
    obtain rfl := Except.ok.inj h
    exact ⟨by simp [TokenKind.visible], hb⟩
  | startTag name attrs selfClosing =>
    obtain rfl := Except.ok.inj h
    have hattrs : (elementOf name attrs selfClosing).attrs = attrs := ofList_of_nodup ht
    obtain ⟨hself, hvoid, hend⟩ := closing_elementOf name attrs selfClosing
    have nodup : ((elementOf name attrs selfClosing).attrs.map Prod.fst).Nodup := by
      rw [hattrs]
      exact ht
    have hopen := taken_openTag hb nodup hvoid hend position
    rw [hself, hattrs] at hopen
    exact hopen
  | endTag name => exact taken_closeTag hb h

theorem taken_foldlM {b b' : Builder} {ts : List Token} (hb : b.Valid) (hts : ∀ t ∈ ts, t.kind.HasDistinctAttrs)
    (h : ts.foldlM step b = .ok b') :
    b'.taken = b.taken ++ (ts.map Token.kind).flatMap TokenKind.visible ∧ b'.Valid := by
  induction ts generalizing b with
  | nil =>
    obtain rfl := Except.ok.inj h
    exact ⟨by simp, hb⟩
  | cons t ts ih =>
    rw [List.foldlM_cons] at h
    cases ht : b.step t with
    | error e => rw [ht] at h; cases h
    | ok b₁ =>
      rw [ht] at h
      obtain ⟨hk₁, hb₁⟩ := taken_step hb (hts t List.mem_cons_self) ht
      obtain ⟨hk, hb'⟩ := ih hb₁ (fun t ht => hts t (List.mem_cons_of_mem _ ht)) h
      exact ⟨by rw [hk, hk₁]; simp, hb'⟩

/-! Nodes are added one after the other. -/

/-- The builder with nodes added to its innermost open element. -/
def addAll (b : Builder) (ns : List Node) : Builder := ns.foldl add b

theorem nodes_addAll (b : Builder) (hs : b.stack = []) (ns : List Node) :
    b.addAll ns = ⟨ns.reverse ++ b.nodes, []⟩ := by
  induction ns generalizing b with
  | nil => obtain ⟨nodes, stack⟩ := b; subst hs; rfl
  | cons n ns ih =>
    have step : b.add n = ⟨n :: b.nodes, []⟩ := by simp [add, hs]
    change (b.add n).addAll ns = _
    rw [ih _ (by rw [step]), step]
    simp

theorem stack_addAll (b : Builder) (o : OpenElement) (stack : List OpenElement) (hs : b.stack = o :: stack)
    (ns : List Node) :
    b.addAll ns = { b with stack := { o with children := ns.reverse ++ o.children } :: stack } := by
  induction ns generalizing b o with
  | nil => obtain ⟨nodes, _⟩ := b; subst hs; rfl
  | cons n ns ih =>
    have step : b.add n = { b with stack := { o with children := n :: o.children } :: stack } := by simp [add, hs]
    change (b.add n).addAll ns = _
    rw [ih _ { o with children := n :: o.children } (by rw [step]), step]
    simp

theorem foldlM_append_ok {b b₁ : Builder} {ss ts : List Token} (h : ss.foldlM step b = .ok b₁) :
    (ss ++ ts).foldlM step b = ts.foldlM step b₁ := by
  rw [List.foldlM_append, h]
  rfl

section Steps

variable {e : Element} {children : List Node} {ts : List Token}

theorem step_childless (b : Builder) {selfClosing : Bool} (he : elementOf e.name e.attrs selfClosing = e)
    (hne : e.closing ≠ .endTag) (h : ts.map Token.kind = [.startTag e.name e.attrs selfClosing]) :
    ts.foldlM step b = .ok (b.add (.element e [])) := by
  obtain ⟨⟨kind, position⟩, rfl, rfl⟩ := List.map_eq_singleton_iff.1 h
  change Except.ok (b.openTag (elementOf e.name e.attrs selfClosing) position) = _
  rw [he]
  unfold openTag
  split
  · next hend => exact absurd hend hne
  · rfl

theorem step_closed (b : Builder) (he : elementOf e.name e.attrs false = e) (hend : e.closing = .endTag)
    (hvoid : isVoid e.name = false)
    (inner : ∀ (b : Builder) (ts : List Token), ts.map Token.kind = kinds children →
      ts.foldlM step b = .ok (b.addAll children))
    (h : ts.map Token.kind = .startTag e.name e.attrs false :: (kinds children ++ [.endTag e.name])) :
    ts.foldlM step b = .ok (b.add (.element e children)) := by
  obtain ⟨⟨kind₀, p₀⟩, ts', rfl, rfl, hrest⟩ := List.map_eq_cons_iff.1 h
  obtain ⟨ts₁, ts₂, rfl, h₁, h₂⟩ := List.map_eq_append_iff.1 hrest
  obtain ⟨⟨kind₂, p₂⟩, rfl, rfl⟩ := List.map_eq_singleton_iff.1 h₂
  have opened : step b ⟨.startTag e.name e.attrs false, p₀⟩ = .ok { b with stack := ⟨e, p₀, []⟩ :: b.stack } := by
    simp only [step, he, openTag, hend]
  have filled := inner { b with stack := ⟨e, p₀, []⟩ :: b.stack } ts₁ h₁
  rw [stack_addAll _ _ _ rfl] at filled
  rw [List.foldlM_cons, opened]
  refine (foldlM_append_ok filled).trans ?_
  simp [List.foldlM_cons, step, closeTag, hvoid]

theorem step_element (b : Builder) (hattrs : (e.attrs.map Prod.fst).Nodup) (hclosed : e.Closed children)
    (inner : ∀ (b : Builder) (ts : List Token), ts.map Token.kind = kinds children →
      ts.foldlM step b = .ok (b.addAll children))
    (h : ts.map Token.kind = (Node.element e children).kinds) :
    ts.foldlM step b = .ok (b.add (.element e children)) := by
  obtain ⟨name, attrs, closing⟩ := e
  cases closing with
  | selfClosing =>
    obtain rfl := hclosed.childless nofun
    exact step_childless b (by simp [elementOf, ofList_of_nodup hattrs]) nofun h
  | void =>
    obtain rfl := hclosed.childless nofun
    have hvoid : isVoid name = true := hclosed.void rfl
    exact step_childless b (by simp [elementOf, ofList_of_nodup hattrs, hvoid]) nofun h
  | endTag =>
    have hvoid : isVoid name = false := hclosed.endTag rfl
    exact step_closed b (by simp [elementOf, ofList_of_nodup hattrs, hvoid]) rfl hvoid inner h

end Steps

theorem step_kinds {ns : List Node} (hn : Balanced ns) (b : Builder) (ts : List Token)
    (h : ts.map Token.kind = Markup.kinds ns) : ts.foldlM step b = .ok (b.addAll ns) := by
  induction ns using nodes_induction generalizing b ts with
  | nil =>
    obtain rfl : ts = [] := List.map_eq_nil_iff.1 h
    rfl
  | text s ns ih =>
    obtain ⟨ts₁, ts₂, rfl, h₁, h₂⟩ := List.map_eq_append_iff.1 h
    obtain ⟨⟨kind, position⟩, rfl, rfl⟩ := List.map_eq_singleton_iff.1 h₁
    exact ih hn.2 (b.add (.text s)) ts₂ h₂
  | element e children ns ihc ih =>
    obtain ⟨⟨hattrs, hclosed, hchildren⟩, hns⟩ := hn
    obtain ⟨ts₁, ts₂, rfl, h₁, h₂⟩ := List.map_eq_append_iff.1 h
    rw [foldlM_append_ok (step_element b hattrs hclosed (ihc hchildren) h₁)]
    exact ih hns (b.add (.element e children)) ts₂ h₂

end Builder

theorem ofTokens_of_kinds {ns : List Node} {ts : List Token} (hn : Balanced ns)
    (h : ts.map Token.kind = kinds ns ++ [.eof]) : Document.ofTokens ts = .ok ns := by
  obtain ⟨ts₁, ts₂, rfl, h₁, h₂⟩ := List.map_eq_append_iff.1 h
  obtain ⟨⟨kind, position⟩, rfl, rfl⟩ := List.map_eq_singleton_iff.1 h₂
  have built := Builder.step_kinds hn .empty ts₁ h₁
  rw [Builder.nodes_addAll _ rfl] at built
  unfold Document.ofTokens
  rw [Builder.foldlM_append_ok built]
  change Except.ok (ns.reverse ++ []).reverse = Except.ok ns
  rw [List.append_nil, List.reverse_reverse]

/-- The tree that tokens make is balanced, and written out it is their visible kinds. -/
theorem kinds_of_ofTokens {ns : List Node} {ts : List Token} (hts : ∀ t ∈ ts, t.kind.HasDistinctAttrs)
    (h : Document.ofTokens ts = .ok ns) : (ts.map Token.kind).flatMap TokenKind.visible = kinds ns ∧ Balanced ns := by
  unfold Document.ofTokens at h
  cases hb : ts.foldlM Builder.step .empty with
  | error e => rw [hb] at h; cases h
  | ok b =>
    rw [hb] at h
    obtain ⟨htaken, hvalid⟩ := Builder.taken_foldlM Builder.valid_empty hts hb
    obtain ⟨nodes, stack⟩ := b
    cases stack with
    | cons o stack => cases h
    | nil =>
      obtain rfl : nodes.reverse = ns := Except.ok.inj h
      refine ⟨?_, hvalid.nodes⟩
      simpa [Builder.taken, Builder.empty, kinds] using htaken.symm

end Stencil.Markup
