import FusedKernel.Operator.Reading
import FusedKernel.Reference

/-!
What happens to kernels, as events, and the records in which events travel: a target, a level and
named fields.
-/
namespace FusedKernel.Console

/-- What is reported about kernels. -/
inductive Event
  | compiled (name : String) (ops : OperatorPair)
  | duplicate (name : String)
  | linked (count : Nat)
  | resolved (name : String)
  deriving DecidableEq, Repr

/-- Levels from the gravest to the most detailed. -/
inductive Level
  | error
  | warn
  | info
  | debug
  | trace
  deriving DecidableEq, Repr

/-- A field's value. A described value is known only by a text that describes it, in which a text
stands between quotes. -/
inductive FieldValue
  | text (s : String)
  | described (description : String)
  | count (n : Nat)
  deriving DecidableEq, Repr

structure Field where
  key : String
  value : FieldValue
  deriving DecidableEq, Repr

structure Record where
  target : String
  level : Level
  fields : List Field
  deriving DecidableEq, Repr

namespace Event

def level : Event → Level
  | compiled _ _ => .debug
  | duplicate _ => .warn
  | linked _ => .info
  | resolved _ => .trace

/-- The value of the field `event`. -/
def kind : Event → String
  | compiled _ _ => "kernel_compiled"
  | duplicate _ => "duplicate_symbol"
  | linked _ => "unit_finalized"
  | resolved _ => "symbol_resolved"

/-- The fields that belong to the kind of an event. -/
def details : Event → List Field
  | compiled name ops =>
    [⟨"name", .text name⟩, ⟨"op1", .described ops.first.symbol⟩,
      ⟨"op2", .described ops.second.symbol⟩]
  | duplicate name => [⟨"name", .text name⟩]
  | linked count => [⟨"kernel_count", .count count⟩]
  | resolved name => [⟨"name", .text name⟩]

/-- The record in which an event travels. -/
def record (e : Event) : Record :=
  ⟨"kernjit", e.level, ⟨"event", .text e.kind⟩ :: e.details⟩

end Event

end FusedKernel.Console
