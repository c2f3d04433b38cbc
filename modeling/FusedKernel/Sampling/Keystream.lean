/-!
The ChaCha keystream with eight rounds, as a sequence of 32-bit words under a 256-bit key. Blocks of
sixteen words are numbered by a 64-bit counter, so the sequence repeats after `period` words. A
stream is a key and a position; reading a word moves the position and touches nothing else.
-/
namespace FusedKernel.Sampling

/-- The sixteen words of a block. -/
abbrev BlockState := Vector UInt32 16

def rotateLeft (x : UInt32) (n : UInt32) : UInt32 := (x <<< n) ||| (x >>> (32 - n))

def rotateRight (x : UInt32) (n : UInt32) : UInt32 := (x >>> n) ||| (x <<< ((32 - n) &&& 31))

/-- Mixes four words of a block. -/
def quarterRound (s : BlockState) (a b c d : Fin 16) : BlockState :=
  let s := s.set a (s[a] + s[b])
  let s := s.set d (rotateLeft (s[d] ^^^ s[a]) 16)
  let s := s.set c (s[c] + s[d])
  let s := s.set b (rotateLeft (s[b] ^^^ s[c]) 12)
  let s := s.set a (s[a] + s[b])
  let s := s.set d (rotateLeft (s[d] ^^^ s[a]) 8)
  let s := s.set c (s[c] + s[d])
  s.set b (rotateLeft (s[b] ^^^ s[c]) 7)

/-- Mixes the four columns and then the four diagonals of a block. -/
def doubleRound (s : BlockState) : BlockState :=
  let s := quarterRound s 0 4 8 12
  let s := quarterRound s 1 5 9 13
  let s := quarterRound s 2 6 10 14
  let s := quarterRound s 3 7 11 15
  let s := quarterRound s 0 5 10 15
  let s := quarterRound s 1 6 11 12
  let s := quarterRound s 2 7 8 13
  quarterRound s 3 4 9 14

/-- A block before mixing: four constants, the key, the block's number and a zero stream number. -/
def initialBlock (key : Vector UInt32 8) (number : Nat) : BlockState :=
  #v[0x61707865, 0x3320646e, 0x79622d32, 0x6b206574, key[0], key[1], key[2], key[3], key[4], key[5],
    key[6], key[7], number.toUInt32, (number >>> 32).toUInt32, 0, 0]

/-- The keystream block of a number: the mixed block added to the unmixed one. -/
def keyBlock (key : Vector UInt32 8) (number : Nat) : BlockState :=
  let start := initialBlock key number
  let mixed := doubleRound (doubleRound (doubleRound (doubleRound start)))
  Vector.zipWith (· + ·) mixed start

structure Keystream where
  key : Vector UInt32 8
  /-- The position of the next word. -/
  position : Nat

namespace Keystream

/-- The number of words after which the keystream repeats: sixteen for each block number. -/
def period : Nat := 0x100000000000000000

/-- The word at the stream's position. -/
def word (s : Keystream) : UInt32 :=
  (keyBlock s.key (s.position / 16))[s.position % 16]

/-- Reads a word. -/
def next (s : Keystream) : UInt32 × Keystream :=
  (s.word, { s with position := (s.position + 1) % period })

/-- One step of the congruential generator that expands seeds. -/
def seedStep (state : UInt64) : UInt64 := state * 6364136223846793005 + 11634580027462260723

/-- The key word that a state of the expansion gives: its high bits, mixed and rotated. -/
def seedWord (state : UInt64) : UInt32 :=
  let mixed := (((state >>> 18) ^^^ state) >>> 27).toUInt32
  rotateRight mixed (state >>> 59).toUInt32

/-- The first key words that a seed expands to. -/
def seedWords : Nat → UInt64 → List UInt32
  | 0, _ => []
  | count + 1, state => seedWord (seedStep state) :: seedWords count (seedStep state)

@[simp] theorem length_seedWords (count : Nat) (state : UInt64) :
    (seedWords count state).length = count := by
  induction count generalizing state with
  | zero => rfl
  | succ count ih => simp [seedWords, ih]

/-- The key that a seed expands to. -/
def keyOfSeed (seed : UInt64) : Vector UInt32 8 :=
  ⟨(seedWords 8 seed).toArray, by simp⟩

/-- The stream of a seed, at its start. -/
def ofSeed (seed : UInt64) : Keystream := ⟨keyOfSeed seed, 0⟩

theorem position_next_lt (s : Keystream) : s.next.2.position < period :=
  Nat.mod_lt _ (by decide)

end Keystream

end FusedKernel.Sampling
