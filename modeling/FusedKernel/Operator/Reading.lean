import FusedKernel.Operator.Basic
import FusedKernel.Text.Blank
import FusedKernel.Text.Quoted

/-!
Operators as they are written: by symbol, by name in any case of its ASCII letters, or by code.
Blanks around a written operator are ignored.
-/
namespace FusedKernel

/-- A written operator that the catalogue does not have, as it was given. -/
structure UnsupportedOperator where
  given : String
  deriving DecidableEq, Repr

namespace UnsupportedOperator

def message (e : UnsupportedOperator) : String :=
  "unsupported operator: " ++ Text.quoted e.given

end UnsupportedOperator

namespace Operator

/-- Equality of texts up to the case of ASCII letters. -/
def sameLetters (s t : List Char) : Bool := s.map Char.toLower == t.map Char.toLower

/-- Whether the text, without surrounding blanks, spells the operator. -/
def spells (core : List Char) (op : Operator) : Bool :=
  op.symbol.toList == core || sameLetters op.name.toList core

/-- The operator that a text spells. -/
def ofText? (s : String) : Option Operator :=
  all.find? (spells (Text.trimBlank s.toList))

/-- An operator as a caller writes it. -/
inductive Written
  | text (s : String)
  | code (n : Nat)
  deriving DecidableEq, Repr

namespace Written

/-- The text by which an unknown operator is reported. -/
def given : Written → String
  | text s => s
  | code n => toString n

def read? : Written → Option Operator
  | text s => ofText? s
  | code n => ofCode? n

/-- The operator meant, or the report of what was given. -/
def read (w : Written) : Except UnsupportedOperator Operator :=
  match w.read? with
  | some op => .ok op
  | none => .error ⟨w.given⟩

end Written

/-- Two written operators, read in order: the first that is unknown is reported. -/
def readPair (first second : Written) : Except UnsupportedOperator (Operator × Operator) :=
  match first.read with
  | .error e => .error e
  | .ok op₁ =>
    match second.read with
    | .error e => .error e
    | .ok op₂ => .ok (op₁, op₂)

end Operator

end FusedKernel
