import FusedKernel.Toml.Fault

/-!
Readings that try one kind of thing after another. A text that does not start like a thing may be
read as the next kind; one that starts like it and then breaks its rules may not.
-/
namespace FusedKernel.Toml

abbrev Chars := List Char

/-- What an attempt to read something from the front of a text gives. -/
inductive Reading (α : Type)
  /-- The text does not start so. -/
  | absent
  /-- The text starts so, but breaks the rules then. -/
  | broken
  /-- The thing and the rest of the text. -/
  | read (x : α) (rest : Chars)
  deriving Repr

namespace Reading

variable {α β : Type}

/-- A reading that has started: what fails now is broken. -/
def started : Option (α × Chars) → Reading α
  | some (x, rest) => read x rest
  | none => broken

/-- A reading of something that has no start of its own: what fails is absent. -/
def whole : Option (α × Chars) → Reading α
  | some (x, rest) => read x rest
  | none => absent

/-- Goes on with the rest. -/
def andThen (r : Reading α) (f : α → Chars → Reading β) : Reading β :=
  match r with
  | absent => absent
  | broken => broken
  | read x rest => f x rest

/-- A reading of one kind, or of another where that is absent. -/
def orElse (r : Reading α) (other : Unit → Reading α) : Reading α :=
  match r with
  | absent => other ()
  | r => r

instance : OrElse (Reading α) := ⟨orElse⟩

/-- Reads something that may be missing. -/
def skippable (f : Chars → Reading Unit) (s : Chars) : Reading Unit :=
  match f s with
  | absent => read () s
  | r => r

/-- A reading that must succeed. -/
def required : Reading α → Except Fault (α × Chars)
  | read x rest => .ok (x, rest)
  | absent | broken => .error .malformed

end Reading

end FusedKernel.Toml
