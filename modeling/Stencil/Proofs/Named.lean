import Mathlib.Data.List.Forall2
import Stencil.Named

/-! Named items where a name may come again and the last item under it counts. -/

namespace Stencil.Named

variable {α β : Type}

/-- The last item under a name. -/
def last? : List (String × α) → String → Option α
  | [], _ => none
  | (n, x) :: items, name => (last? items name).or (if n = name then some x else none)

theorem last?_append (as bs : List (String × α)) (name : String) :
    last? (as ++ bs) name = (last? bs name).or (last? as name) := by
  induction as with
  | nil => simp [last?]
  | cons a as ih =>
    obtain ⟨n, x⟩ := a
    rw [List.cons_append, last?, last?, ih, Option.or_assoc]

/-- Items under one name are not missed under another. -/
theorem last?_filter_ne (items : List (String × α)) {removed name : String} (h : removed ≠ name) :
    last? (items.filter fun x => x.1 ≠ removed) name = last? items name := by
  induction items with
  | nil => rfl
  | cons item items ih =>
    obtain ⟨n, x⟩ := item
    by_cases hn : n = removed
    · have other : n ≠ name := fun heq => h (hn.symm.trans heq)
      rw [List.filter_cons_of_neg (by simpa using hn), ih, last?, if_neg other, Option.or_none]
    · rw [List.filter_cons_of_pos (by simpa using hn), last?, last?, ih]

theorem last?_filter_self (items : List (String × α)) (removed : String) :
    last? (items.filter fun x => x.1 ≠ removed) removed = none := by
  induction items with
  | nil => rfl
  | cons item items ih =>
    obtain ⟨n, x⟩ := item
    by_cases hn : n = removed
    · rw [List.filter_cons_of_neg (by simpa using hn), ih]
    · rw [List.filter_cons_of_pos (by simpa using hn), last?, ih, if_neg hn, Option.or_none]

/-- Wherever an item that is put under a name is found there from then on, of items put one after the other the last one
under each name is found. -/
theorem get_foldl_put {σ : Type} {get : σ → String → Option α} {put : σ → String → α → σ}
    (h : ∀ s n x name, get (put s n x) name = if n = name then some x else get s name) (items : List (String × α)) (s : σ)
    (name : String) : get (items.foldl (fun s x => put s x.1 x.2) s) name = (last? items name).or (get s name) := by
  induction items generalizing s with
  | nil => simp [last?]
  | cons item items ih =>
    obtain ⟨n, x⟩ := item
    rw [List.foldl_cons, ih, h, last?, Option.or_assoc]
    split
    · rw [Option.some_or]
    · rw [Option.none_or]

theorem get?_filter_ne (s : Named α) (removed name : String) :
    get? (s.filter fun x => x.1 ≠ removed) name = if name = removed then none else s.get? name := by
  induction s with
  | nil => simp
  | cons x s ih =>
    obtain ⟨n, item⟩ := x
    by_cases hn : n = removed
    · rw [List.filter_cons_of_neg (by simpa using hn), ih, get?_cons]
      by_cases h : name = removed
      · rw [if_pos h, if_pos h]
      · rw [if_neg h, if_neg h, if_neg fun heq => h (heq.trans hn)]
    · rw [List.filter_cons_of_pos (by simpa using hn), get?_cons, get?_cons, ih]
      by_cases h : name = n
      · rw [if_pos h, if_pos h, if_neg fun heq => hn (h ▸ heq)]
      · rw [if_neg h, if_neg h]

theorem get?_ofList (items : List (String × α)) (name : String) : (ofList items).get? name = last? items name := by
  have found : ∀ (s : Named α) n x name, (insert n x s).get? name = if n = name then some x else s.get? name := by
    intro s n x name
    rw [get?_insert]
    simp only [eq_comm]
  have all := get_foldl_put found items [] name
  rwa [get?_nil, Option.or_none] at all

theorem mem_names_foldl_insert (items : List (String × α)) (s : Named α) (name : String) :
    name ∈ (items.foldl (fun s x => insert x.1 x.2 s) s).names ↔ name ∈ items.map Prod.fst ∨ name ∈ s.names := by
  induction items generalizing s with
  | nil => simp
  | cons item items ih =>
    have first : name ∈ (insert item.1 item.2 s).names ↔ name = item.1 ∨ name ∈ s.names := by
      rw [names_insert]
      split
      · next h => exact ⟨.inr, fun hname => hname.elim (fun heq => heq ▸ h) id⟩
      · rw [List.mem_append, List.mem_singleton, or_comm]
    rw [List.foldl_cons, ih, first, List.map_cons, List.mem_cons]
    tauto

theorem mem_names_ofList (items : List (String × α)) (name : String) :
    name ∈ (ofList items).names ↔ name ∈ items.map Prod.fst := by
  rw [ofList, mem_names_foldl_insert]
  exact or_iff_left List.not_mem_nil

theorem names_of_related {R : α → β → Prop} {as : List (String × α)} {bs : List (String × β)}
    (h : List.Forall₂ (fun a b => a.1 = b.1 ∧ R a.2 b.2) as bs) : as.map Prod.fst = bs.map Prod.fst := by
  induction h with
  | nil => rfl
  | cons first _ ih => rw [List.map_cons, List.map_cons, first.1, ih]

theorem rel_last? {R : α → β → Prop} {as : List (String × α)} {bs : List (String × β)}
    (h : List.Forall₂ (fun a b => a.1 = b.1 ∧ R a.2 b.2) as bs) (name : String) :
    Option.Rel R (last? as name) (last? bs name) := by
  induction h with
  | nil => exact .none
  | @cons a b as bs first _ ih =>
    obtain ⟨n, x⟩ := a
    obtain ⟨m, y⟩ := b
    obtain ⟨rfl, hxy⟩ : n = m ∧ R x y := first
    rw [last?, last?]
    generalize last? as name = x' at ih ⊢
    generalize last? bs name = y' at ih ⊢
    cases ih with
    | some later => exact .some later
    | none =>
      rw [Option.none_or, Option.none_or]
      split
      · exact .some hxy
      · exact .none

end Stencil.Named
