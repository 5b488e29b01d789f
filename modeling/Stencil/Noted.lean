import Stencil.Error.Basic
import Stencil.Log

/-! Results with the notes that were made on the way to them. -/

namespace Stencil

/-- An answer or a failure, and the notes made on the way. -/
structure Noted (α : Type) where
  result : Except Error α
  notes : List Note

namespace Noted

variable {α β : Type}

def ofExcept (x : Except Error α) : Noted α := ⟨x, []⟩

def note (level : Level) (text : String) : Noted Unit := ⟨.ok (), [⟨level, text⟩]⟩

def andThen (x : Noted α) (f : α → Noted β) : Noted β :=
  match x.result with
  | .ok a => ⟨(f a).result, x.notes ++ (f a).notes⟩
  | .error e => ⟨.error e, x.notes⟩

instance : Monad Noted where
  pure a := ⟨.ok a, []⟩
  bind := andThen

@[simp] theorem result_pure (a : α) : (pure a : Noted α).result = .ok a := rfl

@[simp] theorem result_ofExcept (x : Except Error α) : (ofExcept x).result = x := rfl

@[simp] theorem result_note (level : Level) (text : String) : (note level text).result = .ok () := rfl

@[simp] theorem result_bind (x : Noted α) (f : α → Noted β) :
    (x >>= f).result = x.result.bind fun a => (f a).result := by
  simp only [Bind.bind, andThen, Except.bind]
  split <;> simp_all

end Noted

end Stencil
