/-!
Rules on the wording of faults. A wording is passed on if it holds one of the phrases that faults of
data have, wherever it holds it. A position at its end is not passed on.
-/
namespace FusedKernel.Settings

/-- Whether some characters hold others in one piece. -/
def occursIn (phrase : List Char) : List Char → Bool
  | [] => phrase.isEmpty
  | c :: s => phrase.isPrefixOf (c :: s) || occursIn phrase s

/-- The phrases of faults of data. -/
def dataPhrases : List String :=
  ["unknown variant ", "invalid type: ", "invalid length ", "duplicate field "]

/-- Whether a wording holds a phrase of faults of data. -/
def mentionsData (wording : String) : Bool :=
  dataPhrases.any fun phrase => occursIn phrase.toList wording.toList

/-! ### Positions -/

/-- The rest after a given start. -/
def dropStart? (start s : List Char) : Option (List Char) :=
  if start.isPrefixOf s then some (s.drop start.length) else none

/-- The rest after a number. -/
def dropNumber? (s : List Char) : Option (List Char) :=
  if (s.head?.map Char.isDigit).getD false then some (s.dropWhile Char.isDigit) else none

/-- Whether a position comes next, a line and a column. -/
def startsPosition (s : List Char) : Bool :=
  ((((dropStart? " at line ".toList s).bind dropNumber?).bind
    (dropStart? " column ".toList)).bind dropNumber?).isSome

/-- What stands before the last position, if there is one. -/
def beforePosition? : List Char → Option (List Char)
  | [] => none
  | c :: s =>
    match beforePosition? s with
    | some before => some (c :: before)
    | none => if startsPosition (c :: s) then some [] else none

/-- A wording without its last position and what follows it. -/
def withoutPosition (wording : String) : String :=
  match beforePosition? wording.toList with
  | some before => String.ofList before
  | none => wording

end FusedKernel.Settings
