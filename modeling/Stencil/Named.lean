/-! Items kept under names, in the order in which the names came. A name that is given again keeps its place and
takes the new item. -/

namespace Stencil

abbrev Named (α : Type) := List (String × α)

namespace Named

variable {α β : Type}

def insert (name : String) (item : α) : Named α → Named α
  | [] => [(name, item)]
  | (n, x) :: rest => if n = name then (n, item) :: rest else (n, x) :: insert name item rest

/-- The items given one after the other. -/
def ofList (items : List (String × α)) : Named α := items.foldl (fun s x => insert x.1 x.2 s) []

def get? (s : Named α) (name : String) : Option α := s.lookup name

def names (s : Named α) : List String := s.map Prod.fst

@[simp] theorem get?_nil (name : String) : get? ([] : Named α) name = none := rfl

theorem get?_cons (n : String) (x : α) (s : Named α) (name : String) :
    get? ((n, x) :: s) name = if name = n then some x else get? s name := by
  by_cases h : name = n
  · simp [get?, h]
  · have : (name == n) = false := by simpa using h
    simp [get?, List.lookup_cons, this, h]

theorem get?_insert (s : Named α) (n : String) (x : α) (name : String) :
    (insert n x s).get? name = if name = n then some x else s.get? name := by
  induction s with
  | nil => simp [insert, get?_cons]
  | cons m rest ih =>
    obtain ⟨m, y⟩ := m
    by_cases h : m = n
    · subst h
      by_cases h' : name = m <;> simp [insert, get?_cons, h']
    · by_cases h' : name = m
      · subst h'
        simp [insert, get?_cons, h]
      · simp [insert, get?_cons, h, h', ih]

theorem names_insert (s : Named α) (n : String) (x : α) :
    (insert n x s).names = if n ∈ s.names then s.names else s.names ++ [n] := by
  induction s with
  | nil => simp [insert, names]
  | cons m rest ih =>
    obtain ⟨m, y⟩ := m
    simp only [names] at ih
    by_cases h : m = n
    · simp [insert, names, h]
    · simp only [insert, h, names, List.map_cons, ih, List.mem_cons, Ne.symm h, false_or, if_false]
      split <;> simp_all

end Named
end Stencil
