import FusedKernel.Text.Quoted

/-!
A supply of symbol names: a fixed stem, an underscore and a running number in decimal.
-/
namespace FusedKernel

structure NameSupply where
  stem : String
  /-- How many names were drawn; the next name carries this number. -/
  issued : Nat
  deriving DecidableEq, Repr

namespace NameSupply

/-- The supply over a stem from which nothing was drawn. -/
def new (stem : String) : NameSupply := ⟨stem, 0⟩

/-- The name that a stem and a number form. -/
def nameAt (stem : String) (n : Nat) : String := stem ++ "_" ++ toString n

/-- The next name, and the supply without it. -/
def draw (s : NameSupply) : String × NameSupply :=
  (nameAt s.stem s.issued, { s with issued := s.issued + 1 })

/-- The supply after a number of draws. -/
def skip (s : NameSupply) (n : Nat) : NameSupply := { s with issued := s.issued + n }

/-- One line that shows the stem, quoted, and the number to come. -/
def describe (s : NameSupply) : String :=
  "NameGenerator \x7b prefix: " ++ Text.quoted s.stem ++ ", next: " ++ toString s.issued ++ " \x7d"

end NameSupply

/-- A supply together with a remembered one, to which it can go back. -/
structure NameSupply.Desk where
  current : NameSupply
  saved : NameSupply
  deriving DecidableEq, Repr

namespace NameSupply.Desk

/-- A desk remembers the supply it starts with. -/
def new (s : NameSupply) : Desk := ⟨s, s⟩

def draw (d : Desk) : String × Desk := (d.current.draw.1, { d with current := d.current.draw.2 })

def save (d : Desk) : Desk := { d with saved := d.current }

def restore (d : Desk) : Desk := { d with current := d.saved }

end NameSupply.Desk

end FusedKernel
