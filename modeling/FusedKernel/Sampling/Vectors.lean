import FusedKernel.Operator.Basic
import FusedKernel.Sampling.Keystream

/-!
Words drawn from a keystream: over all words, from a range, or from the safe divisors of a range,
which are its members other than zero and minus one. A range is sampled by the high half of a
product, with a second word drawn where the low half might still carry.
-/
namespace FusedKernel.Sampling

/-- A closed range of words in signed order. -/
structure Range where
  lo : Word
  hi : Word
  deriving DecidableEq, Repr

namespace Range

def isEmpty (r : Range) : Bool := r.hi.slt r.lo

def contains (r : Range) (w : Word) : Bool := r.lo.sle w && w.sle r.hi

/-- The number of members as a word, so zero for the range of all words. -/
def count (r : Range) : Nat := (r.hi - r.lo + 1).toNat

end Range

/-- Whether dividing by a word never traps. -/
def isSafeDivisor (w : Word) : Bool := w != 0 && w != -1

/-- Whether a range has a safe divisor: it does unless it is empty or within `-1` to `0`. -/
def Range.hasSafeDivisor (r : Range) : Bool :=
  !r.isEmpty && (r.lo.slt (-1) || (0 : Word).slt r.hi)

/-- Why there is no sample. -/
inductive SampleError
  | emptyRange
  | noSafeDivisor (range : Range)
  /-- The keystream never yields a safe divisor, however long it is read. -/
  | endless
  deriving DecidableEq, Repr

def SampleError.message : SampleError → String
  | emptyRange => "cannot sample empty range"
  | noSafeDivisor range =>
    "divisor range " ++ toString range.lo.toInt ++ "..=" ++ toString range.hi.toInt ++
      " has no safe values"
  | endless => "no safe value is ever drawn"

/-- A word over the full range. -/
def anyWord (s : Keystream) : Word × Keystream := (s.next.1.toBitVec, s.next.2)

/-- The number of words. -/
def wordCount : Nat := 0x100000000

/-- The high half of a 64-bit number. -/
def highHalf (n : Nat) : Nat := n / wordCount

/-- The low half of a 64-bit number. -/
def lowHalf (n : Nat) : Nat := n % wordCount

/-- A word of a range that is not empty. -/
def wordIn (r : Range) (s : Keystream) : Word × Keystream :=
  if r.count = 0 then anyWord s
  else
    let (first, s) := s.next
    let product := first.toNat * r.count
    if lowHalf product > wordCount - r.count then
      let (second, s) := s.next
      let carry := highHalf (lowHalf product + highHalf (second.toNat * r.count))
      (r.lo + BitVec.ofNat 32 (highHalf product + carry), s)
    else (r.lo + BitVec.ofNat 32 (highHalf product), s)

/-- Draws a number of times. -/
def drawMany (draw : Keystream → Word × Keystream) : Nat → Keystream → List Word × Keystream
  | 0, s => ([], s)
  | n + 1, s =>
    let (w, s) := draw s
    let (ws, s) := drawMany draw n s
    (w :: ws, s)

/-- Words over the full range. -/
def fullRange (n : Nat) (s : Keystream) : List Word × Keystream := drawMany anyWord n s

/-- Words of a range. Nothing is drawn if the range is empty and words are asked for. -/
def values (n : Nat) (r : Range) (s : Keystream) : Except SampleError (List Word × Keystream) :=
  if 0 < n ∧ r.isEmpty then .error .emptyRange else .ok (drawMany (wordIn r) n s)

/-- The first safe divisor among at most a number of draws. -/
def divisorWithin (r : Range) : Nat → Keystream → Option (Word × Keystream)
  | 0, _ => none
  | draws + 1, s =>
    let (w, s) := wordIn r s
    if isSafeDivisor w then some (w, s) else divisorWithin r draws s

/-- The next safe divisor of a range. As a draw depends on the position alone, a search through as
many draws as there are positions would find nothing later either. -/
def nextDivisor (r : Range) (s : Keystream) : Option (Word × Keystream) :=
  divisorWithin r (Keystream.period + 1) s

/-- The next safe divisors of a range, as many as asked for. -/
def divisorList (r : Range) : Nat → Keystream → Option (List Word × Keystream)
  | 0, s => some ([], s)
  | n + 1, s => do
    let (w, s) ← nextDivisor r s
    let (ws, s) ← divisorList r n s
    return (w :: ws, s)

/-- Safe divisors of a range. Nothing is drawn if it has none, even if none are asked for. -/
def divisors (n : Nat) (r : Range) (s : Keystream) : Except SampleError (List Word × Keystream) :=
  if r.hasSafeDivisor then
    match divisorList r n s with
    | some result => .ok result
    | none => .error .endless
  else .error (.noSafeDivisor r)

/-- What can be asked of a source of vectors. -/
inductive Request
  | fullRange (n : Nat)
  | values (n : Nat) (range : Range)
  | divisors (n : Nat) (range : Range)
  deriving DecidableEq, Repr

/-- Serves a request. A failed one leaves the stream where it was. -/
def Request.serve (s : Keystream) : Request → Except SampleError (List Word) × Keystream
  | fullRange n => let (ws, s) := Sampling.fullRange n s; (.ok ws, s)
  | values n range => settle (Sampling.values n range s)
  | divisors n range => settle (Sampling.divisors n range s)
where
  settle : Except SampleError (List Word × Keystream) → Except SampleError (List Word) × Keystream
    | .ok (ws, s) => (.ok ws, s)
    | .error e => (.error e, s)

/-- Serves requests in order from one stream. -/
def serveAll : Keystream → List Request → List (Except SampleError (List Word))
  | _, [] => []
  | s, r :: rest => (r.serve s).1 :: serveAll (r.serve s).2 rest

end FusedKernel.Sampling
