import Std.Data.HashMap
import FusedKernel.Operator.Basic

/-!
Memory of 32-bit cells under byte addresses: given contents, overlaid by the cells written since.
All that matters of it is `read`; `read_write` says what a write does to it.
-/
namespace FusedKernel.Code

/-- The address of a cell's first byte. -/
abbrev Address := Nat

/-- The bytes of a cell. -/
def cellBytes : Nat := 4

structure Memory where
  initial : Address → Word
  written : Std.HashMap Address Word

namespace Memory

/-- Memory with the given contents. -/
def ofContents (initial : Address → Word) : Memory := ⟨initial, ∅⟩

def read (m : Memory) (address : Address) : Word := m.written.getD address (m.initial address)

def write (m : Memory) (address : Address) (w : Word) : Memory :=
  { m with written := m.written.insert address w }

@[simp] theorem read_ofContents (initial : Address → Word) (address : Address) :
    (ofContents initial).read address = initial address := by
  simp [ofContents, read]

theorem read_write (m : Memory) (p q : Address) (w : Word) :
    (m.write p w).read q = if p = q then w else m.read q := by
  by_cases h : p = q <;> simp [read, write, Std.HashMap.getD_insert, h]

@[simp] theorem read_write_self (m : Memory) (p : Address) (w : Word) :
    (m.write p w).read p = w := by
  simp [read_write]

theorem read_write_of_ne (m : Memory) {p q : Address} (w : Word) (h : p ≠ q) :
    (m.write p w).read q = m.read q := by
  simp [read_write, h]

/-- The cells from an address on, as many as asked for. -/
def readArray (m : Memory) (start : Address) (count : Nat) : Array Word :=
  Array.ofFn fun i : Fin count => m.read (start + cellBytes * i)

@[simp] theorem size_readArray (m : Memory) (start : Address) (count : Nat) :
    (m.readArray start count).size = count := by
  simp [readArray]

/-- Each bank of memory has this many bytes of the address space to itself. -/
def bankBytes : Nat := 0x1000000000000000

/-- The address of a cell in a bank. Banks are counted from one, so that no cell has address 0. -/
def bankAddress (bank index : Nat) : Address := (bank + 1) * bankBytes + cellBytes * index

/-- Memory with an array of cells in each of some banks, and zero elsewhere. -/
def ofBanks (banks : List (Array Word)) : Memory :=
  ofContents fun address =>
    match address / bankBytes with
    | 0 => 0
    | bank + 1 => ((banks[bank]?.getD #[])[address % bankBytes / cellBytes]?).getD 0

end Memory

end FusedKernel.Code
