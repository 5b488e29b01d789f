import Mathlib.Data.List.Induction
import Stencil.Proofs.Markup.Sourced

/-! What putting attributes into declared order does to them, whatever is declared: the declarations may repeat names, leave
some out and know others that no attribute has. -/

namespace Stencil.Markup

variable {α : Type} [BEq α] [LawfulBEq α]

theorem eraseDups_filter (p : α → Bool) (l : List α) : (l.filter p).eraseDups = l.eraseDups.filter p := by
  induction l using List.reverseRecOn with
  | nil => rfl
  | append_singleton l a ih =>
    have last : (([a].filter p).removeAll (l.filter p)).eraseDups = (([a].removeAll l).eraseDups).filter p := by
      by_cases ha : a ∈ l <;> cases hp : p a <;> simp [List.removeAll, List.eraseDups_cons, ha, hp]
    rw [List.filter_append, List.eraseDups_append, List.eraseDups_append, List.filter_append, ih, last]

/-- Attributes in two parts. The first are those that are declared, in the order of their first declarations, each with its
value if that declaration has one; the others follow in their own order with their values. -/
structure IsDeclaredOrder (values : List (α × List Char)) (order : List (α × Bool))
    (declared others : List (α × Option (List Char))) : Prop where
  names : declared.map Prod.fst = (order.map Prod.fst).eraseDups.filter (values.map Prod.fst).contains
  kept : ∀ a ∈ declared, ∃ v hasValue, (a.1, v) ∈ values ∧ order.lookup a.1 = some hasValue ∧
    a.2 = if hasValue then some v else none
  others : others = (values.filter fun a => !(order.map Prod.fst).contains a.1).map fun a => (a.1, some a.2)

variable {values : List (α × List Char)} {order : List (α × Bool)} {declared others : List (α × Option (List Char))}

theorem IsDeclaredOrder.skip (h : IsDeclaredOrder values order declared others) {n : α}
    (hn : n ∉ values.map Prod.fst) (hasValue : Bool) : IsDeclaredOrder values ((n, hasValue) :: order) declared others where
  names := by
    have absent : ((order.map Prod.fst).filter fun m => !m == n).eraseDups.filter (values.map Prod.fst).contains =
        (order.map Prod.fst).eraseDups.filter (values.map Prod.fst).contains := by
      rw [eraseDups_filter, List.filter_filter]
      refine List.filter_congr fun m _ => ?_
      by_cases hm : m = n <;> simp [hm, hn]
    rw [List.map_cons, List.eraseDups_cons, List.filter_cons_of_neg (by simpa using hn), absent, h.names]
  kept a ha := by
    obtain ⟨v, here, hv, hlookup, heq⟩ := h.kept a ha
    have other : (a.1 == n) = false := by
      simpa using fun he : a.1 = n => hn (he ▸ List.mem_map_of_mem hv)
    exact ⟨v, here, hv, by rw [List.lookup_cons, other]; exact hlookup, heq⟩
  others := by
    rw [h.others]
    refine congrArg _ (List.filter_congr fun a ha => ?_)
    have other : (a.1 == n) = false := by
      simpa using fun he : a.1 = n => hn (he ▸ List.mem_map_of_mem ha)
    simp [other]

/-- The first declaration of a name that an attribute has takes that attribute. -/
theorem IsDeclaredOrder.take {n : α} (h : IsDeclaredOrder (values.filter (·.1 != n)) order declared others) {v : List Char}
    (hv : (n, v) ∈ values) (hasValue : Bool) : IsDeclaredOrder values ((n, hasValue) :: order)
      ((n, if hasValue then some v else none) :: declared) others where
  names := by
    have later : ((order.map Prod.fst).filter fun m => !m == n).eraseDups.filter (values.map Prod.fst).contains =
        (order.map Prod.fst).eraseDups.filter ((values.filter (·.1 != n)).map Prod.fst).contains := by
      have names : (values.filter (·.1 != n)).map Prod.fst = (values.map Prod.fst).filter (· != n) := by
        rw [List.filter_map]
        rfl
      rw [eraseDups_filter, List.filter_filter, names]
      refine List.filter_congr fun m _ => Bool.eq_iff_iff.2 ?_
      simp only [Bool.and_eq_true, List.contains_iff_mem, List.mem_filter]
      rfl
    have present : (values.map Prod.fst).contains n = true := by simpa using ⟨v, hv⟩
    rw [List.map_cons, List.map_cons, List.eraseDups_cons, List.filter_cons_of_pos present, later, h.names]
  kept a ha := by
    rcases List.mem_cons.1 ha with rfl | ha
    · exact ⟨v, hasValue, hv, by simp, rfl⟩
    · obtain ⟨w, here, hw, hlookup, heq⟩ := h.kept a ha
      obtain ⟨hw, hne⟩ := List.mem_filter.1 hw
      have other : (a.1 == n) = false := by simpa using hne
      exact ⟨w, here, hw, by rw [List.lookup_cons, other]; exact hlookup, heq⟩
  others := by
    rw [h.others, List.filter_filter]
    refine congrArg _ (List.filter_congr fun a _ => ?_)
    rw [List.map_cons, List.contains_cons, Bool.not_or, Bool.and_comm]
    rfl

theorem isDeclaredOrder (values : List (α × List Char)) (order : List (α × Bool)) : ∃ declared others,
    inDeclaredOrder values order = declared ++ others ∧ IsDeclaredOrder values order declared others := by
  induction order generalizing values with
  | nil =>
    have all : (values.filter fun a => !(([] : List (α × Bool)).map Prod.fst).contains a.1) = values :=
      List.filter_eq_self.2 fun _ _ => rfl
    exact ⟨[], values.map fun a => (a.1, some a.2), rfl, ⟨rfl, nofun, by rw [all]⟩⟩
  | cons d order ih =>
    obtain ⟨n, hasValue⟩ := d
    unfold inDeclaredOrder
    cases hl : values.lookup n with
    | none =>
      obtain ⟨declared, others, heq, h⟩ := ih values
      have absent : n ∉ values.map Prod.fst := by
        rintro hn
        obtain ⟨a, ha, rfl⟩ := List.mem_map.1 hn
        simpa using List.lookup_eq_none_iff.1 hl a ha
      exact ⟨declared, others, heq, h.skip absent hasValue⟩
    | some v =>
      obtain ⟨declared, others, heq, h⟩ := ih (values.filter (·.1 != n))
      have present : (n, v) ∈ values := by
        obtain ⟨before, after, rfl, -⟩ := List.lookup_eq_some_iff.1 hl
        simp
      exact ⟨(n, if hasValue then some v else none) :: declared, others, by rw [heq]; rfl, h.take present hasValue⟩

theorem IsDeclaredOrder.mem_names (h : IsDeclaredOrder values order declared others) (n : α) :
    n ∈ (declared ++ others).map Prod.fst ↔ n ∈ values.map Prod.fst := by
  have hdeclared : n ∈ declared.map Prod.fst ↔ n ∈ order.map Prod.fst ∧ n ∈ values.map Prod.fst := by
    rw [h.names, List.mem_filter, List.mem_eraseDups, List.contains_iff_mem]
  have hothers : n ∈ others.map Prod.fst ↔ n ∈ values.map Prod.fst ∧ n ∉ order.map Prod.fst := by
    rw [h.others, List.map_map]
    constructor
    · intro hn
      obtain ⟨a, ha, rfl⟩ := List.mem_map.1 hn
      obtain ⟨ha, hno⟩ := List.mem_filter.1 ha
      exact ⟨List.mem_map_of_mem ha, by simpa using hno⟩
    · rintro ⟨hn, hno⟩
      obtain ⟨a, ha, rfl⟩ := List.mem_map.1 hn
      exact List.mem_map.2 ⟨a, List.mem_filter.2 ⟨ha, by simpa using hno⟩, rfl⟩
  rw [List.map_append, List.mem_append, hdeclared, hothers]
  tauto

theorem perm_names_inDeclaredOrder {values : List (α × List Char)} (h : (values.map Prod.fst).Nodup)
    (order : List (α × Bool)) : ((inDeclaredOrder values order).map Prod.fst).Perm (values.map Prod.fst) := by
  obtain ⟨declared, others, heq, hsplit⟩ := isDeclaredOrder values order
  rw [List.perm_ext_iff_of_nodup (nodup_inDeclaredOrder h order) h, heq]
  exact hsplit.mem_names

/-- Putting attributes of different names into declared order keeps their names, each once: those that are declared come
first, at their first declarations, and the others after them as they were. -/
theorem inDeclaredOrder_keeps_names {values : List (α × List Char)} (h : (values.map Prod.fst).Nodup)
    (order : List (α × Bool)) :
    ((inDeclaredOrder values order).map Prod.fst).Perm (values.map Prod.fst) ∧
      ∃ declared others, inDeclaredOrder values order = declared ++ others ∧
        IsDeclaredOrder values order declared others :=
  ⟨perm_names_inDeclaredOrder h order, isDeclaredOrder values order⟩

/-- The second `id` is passed over, as is a name that no attribute has. -/
theorem inDeclaredOrder_keeps_names_link :
    let values := [("class", "a b".toList), ("href", "/".toList), ("id", "top".toList)]
    let order := [("id", true), ("lang", true), ("class", false), ("id", false)]
    (values.map Prod.fst).Nodup ∧
      inDeclaredOrder values order = [("id", some "top".toList), ("class", none), ("href", some "/".toList)] ∧
      ((inDeclaredOrder values order).map Prod.fst).Perm (values.map Prod.fst) ∧
      ∃ declared others, inDeclaredOrder values order = declared ++ others ∧
        IsDeclaredOrder values order declared others := by
  intro values order
  have distinct : (values.map Prod.fst).Nodup := by decide
  exact ⟨distinct, by decide +kernel, inDeclaredOrder_keeps_names distinct order⟩

end Stencil.Markup
