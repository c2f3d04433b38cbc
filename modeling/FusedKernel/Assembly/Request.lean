import FusedKernel.Assembly.Image

/-!
Sequences of requests to one assembly: each asks for one kernel, under a given name or under a fresh
one, for operators or for operators as written.
-/
namespace FusedKernel.Assembly

inductive Request
  | compile (ops : OperatorPair)
  | compileAs (name : String) (ops : OperatorPair)
  | compileWritten (first second : Operator.Written)
  deriving DecidableEq, Repr

namespace Request

/-- The operators that a request asks for. -/
def ops : Request → Except UnsupportedOperator OperatorPair
  | compile ops | compileAs _ ops => .ok ops
  | compileWritten first second =>
    (Operator.readPair first second).map fun (op₁, op₂) => ⟨op₁, op₂⟩

/-- The name that a request gives, if it does not leave it to the supply. -/
def givenName? : Request → Option String
  | compileAs name _ => some name
  | compile _ | compileWritten _ _ => none

/-- Whether a request draws a name: it leaves the name to the supply, and its operators are
known. -/
def draws (r : Request) : Bool := r.givenName?.isNone && r.ops.toBool

/-- The name that a request asks for, where a supply stands. -/
def name (names : NameSupply) (r : Request) : String := r.givenName?.getD names.draw.1

/-- The answer to a request, as far as it depends on the handles issued so far: an assembly of an
identity issues a handle unless an operator is unknown or the name was issued before. -/
def answer (id : Nat) (issued : List Handle) (names : NameSupply) (r : Request) :
    Except Failure Handle :=
  match r.ops with
  | .error e => .error (.unsupportedOperator e)
  | .ok ops =>
    if r.name names ∈ issued.map Handle.name then .error (.duplicateSymbol (r.name names))
    else .ok ⟨r.name names, ops, issued.length, id⟩

/-- The answers to requests in order. -/
def answers (id : Nat) (issued : List Handle) (names : NameSupply) :
    List Request → List (Except Failure Handle)
  | [] => []
  | r :: rest =>
    let result := r.answer id issued names
    result :: answers id (issued ++ result.toOption.toList) (names.skip r.draws.toNat) rest

end Request

/-- Answers a request. -/
def perform (u : Assembly) : Request → Attempt
  | .compile ops => u.compile ops
  | .compileAs name ops => u.compileAs name ops
  | .compileWritten first second => u.compileWritten first second

/-- Answers requests in order. -/
def performAll (u : Assembly) : List Request → Assembly × List (Except Failure Handle)
  | [] => (u, [])
  | r :: rest =>
    let attempt := u.perform r
    let (v, results) := attempt.assembly.performAll rest
    (v, attempt.result :: results)

/-- The handles among some results. -/
def handlesOf (results : List (Except Failure Handle)) : List Handle :=
  results.filterMap Except.toOption

end FusedKernel.Assembly
