/-!
How a walk over signatures keeps its book. A key that is looked into is entered on the way in, and left with what was
found on the way out. The walks say what they look at and leave it to the book what is kept of it.
-/

namespace CliSignature

/-- The book of a walk that enters keys and leaves them with what it finds: the state it is kept in, and the part of
the state that the walk goes by. -/
structure Book (σ ω κ ρ : Type) where
  read : σ → ω
  enter : σ → κ → σ
  leave : σ → κ → ρ → σ

namespace Book

variable {σ ω κ ρ : Type}

/-- Looks into a key, where `body` finds what there is to find. -/
def visit (book : Book σ ω κ ρ) (key : κ) (body : StateM σ ρ) : StateM σ ρ := do
  modify (book.enter · key)
  let found ← body
  modify (book.leave · key found)
  pure found

theorem visit_run (book : Book σ ω κ ρ) (key : κ) (body : StateM σ ρ) (state : σ) :
    book.visit key body state = ((body (book.enter state key)).1,
      book.leave (body (book.enter state key)).2 key (body (book.enter state key)).1) :=
  rfl

end Book

end CliSignature
