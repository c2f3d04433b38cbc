import Mathlib.Logic.Function.Basic
import FusedKernel.Proofs.Assembly.Invariant
import FusedKernel.Proofs.Workbench.Step

/-! Where handles come from. A chronicle follows a workbench from outside: it counts the assemblies
that are created, tells each by its place in that order, and keeps all handles and images that came
of it. Identities of assemblies are no part of it; that they agree with the order is the
invariant. -/
namespace FusedKernel.Workbench

/-- A workbench and what has happened on it. -/
structure Chronicle where
  bench : Workbench
  /-- How many assemblies were created. -/
  created : Nat
  /-- Which assembly was last put into a slot. -/
  assembly : Slot → Nat
  /-- Which assembly the last image in a slot was linked from. -/
  source : Slot → Nat
  /-- The handles of all kernels that were compiled, with their assemblies. -/
  compiled : List (Nat × Handle)
  /-- All handles in answers, with the assemblies that they came from. -/
  shown : List (Nat × Handle)
  /-- All images, with the assemblies that they were linked from. -/
  linked : List (Nat × Image)

namespace Chronicle

/-- The chronicle of an empty workbench. -/
def start : Chronicle := ⟨{}, 0, fun _ => 0, fun _ => 0, [], [], []⟩

/-- The assembly from which a command has its handles. -/
def origin (c : Chronicle) : Command → Nat
  | .compile slot _ _ _ | .compileAs slot _ _ _ _ | .listAssembly slot | .findHandle slot _ =>
    c.assembly slot
  | .resolve image _ _ => c.source image
  | _ => 0

/-- What is noted of a command and its answer, besides that handles were shown. -/
def note (c : Chronicle) : Command → Reply → Chronicle
  | .create slot _ _, .done =>
    { c with created := c.created + 1, assembly := Function.update c.assembly slot c.created }
  | .compile slot _ _ _, .handle h | .compileAs slot _ _ _ _, .handle h =>
    { c with compiled := (c.assembly slot, h) :: c.compiled }
  | .link slot image, .symbols _ =>
    { c with
      source := Function.update c.source image (c.assembly slot)
      linked := (c.bench.images[image]?).toList.map (c.assembly slot, ·) ++ c.linked }
  | _, _ => c

/-- The chronicle after a command. -/
def record (c : Chronicle) (command : Command) : Chronicle :=
  let step := c.bench.perform command
  let shown := step.reply.issued.map (c.origin command, ·) ++ c.shown
  ({ c with bench := step.bench, shown } : Chronicle).note command step.reply

/-- The chronicle after commands in order. -/
def recordAll (c : Chronicle) : List Command → Chronicle
  | [] => c
  | command :: rest => (c.record command).recordAll rest

/-! ### The invariant -/

/-- An assembly is the one at a place in the order. -/
structure Tracks (c : Chronicle) (place : Nat) (u : Assembly) : Prop where
  sound : u.Sound
  id : u.id = place
  lt : place < c.created
  compiled : ∀ h, (place, h) ∈ c.compiled ↔ h ∈ u.handles

/-- A slot holds an assembly, the one at a place in the order. -/
structure Holds (c : Chronicle) (slot : Slot) (place : Nat) (u : Assembly) : Prop where
  bench : c.bench.assemblies[slot]? = some u
  place : c.assembly slot = place

/-- Two handles can be told apart by the identities of their assemblies and their names. -/
def Distinct (x y : Nat × Handle) : Prop := (x.2.owner, x.2.name) ≠ (y.2.owner, y.2.name)

/-- The workbench is as the chronicle tells. -/
structure Consistent (c : Chronicle) : Prop where
  nextId : c.bench.nextId = c.created
  tracks : ∀ {slot place u}, c.Holds slot place u → c.Tracks place u
  apart : ∀ {slot slot' place u u'}, c.Holds slot place u → c.Holds slot' place u' → slot = slot'
  image : ∀ {slot s}, c.bench.images[slot]? = some s → (c.source slot, s) ∈ c.linked
  linked : ∀ {place s}, (place, s) ∈ c.linked → ∃ u, c.Tracks place u ∧ s = u.link.1
  consumed : ∀ {place s slot u}, (place, s) ∈ c.linked → ¬ c.Holds slot place u
  compiled : ∀ {place h}, (place, h) ∈ c.compiled → h.owner = place ∧ place < c.created
  distinct : c.compiled.Pairwise Distinct
  shown : ∀ x ∈ c.shown, x ∈ c.compiled

theorem consistent_start : start.Consistent where
  nextId := rfl
  tracks h := absurd h.bench (by simp [start])
  apart h := absurd h.bench (by simp [start])
  image h := absurd h (by simp [start])
  linked h := absurd h List.not_mem_nil
  consumed h := absurd h List.not_mem_nil
  compiled h := absurd h List.not_mem_nil
  distinct := List.Pairwise.nil
  shown x hx := absurd hx List.not_mem_nil

/-- What a chronicle tells of an assembly stays, as long as no kernel is compiled for it. -/
theorem Tracks.mono {c d : Chronicle} {place : Nat} {u : Assembly} (ht : c.Tracks place u)
    (hle : c.created ≤ d.created) (h : ∀ h, (place, h) ∈ d.compiled ↔ (place, h) ∈ c.compiled) :
    d.Tracks place u :=
  ⟨ht.sound, ht.id, Nat.lt_of_lt_of_le ht.lt hle, fun h' => (h h').trans (ht.compiled h')⟩

end Chronicle

end FusedKernel.Workbench
