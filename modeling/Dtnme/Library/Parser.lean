import Mathlib

/-! # Parsers that can ask for more

A parser reads bytes from the front. It is done with a value and the bytes behind it, it
needs more bytes, or it rejects. A prompt parser is never surprised by what comes later: it
asks for more exactly on the proper prefixes of what it accepts.
-/

namespace Dtnme.Library

/-- Result of a parser on the bytes it was given. -/
inductive Outcome (β α : Type*)
  | done (val : α) (rest : List β)
  | more
  | bad
  deriving DecidableEq, Repr

/-- A parser of a list of bytes. -/
def Parser (β α : Type*) := List β → Outcome β α

namespace Parser

variable {β α γ : Type*}

/-- Read nothing. -/
def ret (a : α) : Parser β α := fun bytes => .done a bytes

/-- Reject. -/
def reject : Parser β α := fun _ => .bad

/-- Go on behind what a first parser read. -/
def andThen (p : Parser β α) (f : α → Parser β γ) : Parser β γ := fun bytes =>
  match p bytes with
  | .done a rest => f a rest
  | .more => .more
  | .bad => .bad

instance : Monad (Parser β) where
  pure := ret
  bind := andThen

end Parser

end Dtnme.Library
