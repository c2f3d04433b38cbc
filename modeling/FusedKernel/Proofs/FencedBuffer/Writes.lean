import Mathlib.Tactic.Common
import FusedKernel.FencedBuffer

/-! What a buffer holds after writes through its two views, in any order: in each cell the word that
was written to it last. Indexed writes do not reach the fence, so an overrun is a raw write; it
shows as long as it is the last to its cell and its word is not the fence word. -/
namespace FusedKernel.FencedBuffer

variable {b b' : FencedBuffer} {i j : Nat}

/-! ### Payload and fence -/

theorem getElem?_payload (hi : i < b.size) : b.payload[i]? = b.cells[i]? := by
  have hcells := b.size_cells
  rw [payload, Array.getElem?_extract, if_pos (by omega), Nat.zero_add]

theorem getElem?_fence (hj : j < fenceSize) : b.fence[j]? = b.cells[b.size + j]? := by
  have hcells : b.cells.size = b.size + fenceSize := b.size_cells
  rw [fence, Array.getElem?_extract, if_pos (by omega)]

theorem payload_append_fence (b : FencedBuffer) : b.payload ++ b.fence = b.cells := by
  have hcells : b.cells.size = b.size + fenceSize := b.size_cells
  rw [payload, fence, Array.extract_append_extract, Nat.zero_min,
    Nat.max_eq_right (Nat.le_add_right ..), Array.extract_eq_self_of_le (Nat.le_of_eq hcells)]

/-- A buffer is nothing but its payload and its fence. -/
theorem eq_iff : b = b' ↔ b.payload = b'.payload ∧ b.fence = b'.fence := by
  refine ⟨fun h => h ▸ ⟨rfl, rfl⟩, fun ⟨hpayload, hfence⟩ => ?_⟩
  have hcells : b.cells = b'.cells := by
    rw [← payload_append_fence, hpayload, hfence, payload_append_fence]
  have hsize : b.size = b'.size := by rw [← size_payload, hpayload, size_payload]
  cases b
  cases b'
  obtain rfl : _ = _ := hcells
  obtain rfl : _ = _ := hsize
  rfl

theorem isIntact_iff_fence : b.isIntact ↔ b.fence = fencePosts := by
  rw [isIntact, Array.all_eq_true_iff_forall_mem, fencePosts, Array.eq_replicate_iff]
  simp

theorem isIntact_iff : b.isIntact ↔ ∀ j < fenceSize, b.fence[j]? = some fenceWord := by
  rw [isIntact, Array.all_eq_true]
  constructor
  · intro h j hj
    have hj' : j < b.fence.size := by rwa [size_fence]
    rw [Array.getElem?_eq_getElem hj', beq_iff_eq.mp (h j hj')]
  · intro h j hj
    have hword := h j (by rwa [size_fence] at hj)
    rw [Array.getElem?_eq_getElem hj] at hword
    exact beq_iff_eq.mpr (Option.some.inj hword)

@[simp] theorem size_ofArray (values : Array Word) : (ofArray values).size = values.size := rfl

@[simp] theorem payload_ofArray (values : Array Word) : (ofArray values).payload = values := by
  simp [payload, ofArray]

@[simp] theorem fence_ofArray (values : Array Word) : (ofArray values).fence = fencePosts := by
  simp [fence, ofArray, fenceSize]

/-! ### Writes in order -/

/-- The word that a write names for an index, through whichever view. -/
def Write.word? (i : Nat) : Write → Option Word
  | indexed j w | raw j w => if j = i then some w else none

/-- The word that a raw write names for an index. -/
def Write.rawWord? (i : Nat) : Write → Option Word
  | indexed _ _ => none
  | raw j w => if j = i then some w else none

/-- The word that a write puts into a cell: only raw writes reach behind the payload. -/
def Write.stored? (size i : Nat) (x : Write) : Option Word :=
  if i < size then x.word? i else x.rawWord? i

/-- The word that the last of some writes has for a cell, of those that have one. -/
def lastOf (wordOf : Write → Option Word) (writes : List Write) : Option Word :=
  writes.reverse.findSome? wordOf

/-- The buffer after a write, which may have failed. -/
def step (b : FencedBuffer) (x : Write) : FencedBuffer :=
  match b.perform x with
  | .ok b => b
  | .error _ => b

/-- The buffer after writes in order. -/
def after (b : FencedBuffer) (writes : List Write) : FencedBuffer := writes.foldl step b

variable {x : Write} {writes : List Write}

@[simp] theorem after_nil (b : FencedBuffer) : b.after [] = b := rfl

@[simp] theorem after_cons (b : FencedBuffer) (x : Write) (rest : List Write) :
    b.after (x :: rest) = (b.step x).after rest := rfl

theorem perform_indexed_eq_error_iff {w : Word} {e : IndexError} :
    b.perform (.indexed i w) = .error e ↔ b.size ≤ i ∧ e = ⟨b.size, i⟩ := by
  rw [perform, write]
  split
  next h => exact ⟨nofun, fun he => absurd he.1 (Nat.not_le.mpr h)⟩
  next h => rw [Except.error.injEq, eq_comm, and_iff_right (Nat.le_of_not_lt h)]

theorem step_raw (b : FencedBuffer) (i : Nat) (w : Word) : b.step (.raw i w) = b.writeRaw i w := rfl

theorem step_indexed (b : FencedBuffer) (i : Nat) (w : Word) :
    b.step (.indexed i w) = if i < b.size then b.writeRaw i w else b := by
  by_cases h : i < b.size <;> simp [step, perform, write, h]

@[simp] theorem size_step (b : FencedBuffer) (x : Write) : (b.step x).size = b.size := by
  cases x with
  | indexed i w =>
    rw [step_indexed]
    split <;> rfl
  | raw i w => rfl

@[simp] theorem size_after (b : FencedBuffer) (writes : List Write) :
    (b.after writes).size = b.size := by
  induction writes generalizing b with
  | nil => rfl
  | cons x rest ih => rw [after_cons, ih, size_step]

theorem getElem?_writeRaw (b : FencedBuffer) (j : Nat) (w : Word) (hi : i < b.cells.size) :
    (b.writeRaw j w).cells[i]? = if j = i then some w else b.cells[i]? := by
  rw [cells_writeRaw, Array.getElem?_setIfInBounds]
  split
  next h => rw [if_pos (h ▸ hi)]
  next => rfl

theorem getElem?_step (b : FencedBuffer) (x : Write) (hi : i < b.cells.size) :
    (b.step x).cells[i]? = (x.stored? b.size i).or b.cells[i]? := by
  cases x with
  | indexed j w =>
    rw [step_indexed, Write.stored?]
    by_cases hji : j = i
    · subst hji
      by_cases hj : j < b.size
      · simp [hj, Write.word?, hi]
      · simp [hj, Write.rawWord?]
    · split <;> split <;> simp [Write.word?, Write.rawWord?, hji]
  | raw j w =>
    have hraw : Write.stored? b.size i (.raw j w) = if j = i then some w else none := ite_self _
    rw [step_raw, getElem?_writeRaw _ _ _ hi, hraw]
    split <;> rfl

theorem lastOf_cons (wordOf : Write → Option Word) (x : Write) (rest : List Write) :
    lastOf wordOf (x :: rest) = (lastOf wordOf rest).or (wordOf x) := by
  rw [lastOf, List.reverse_cons, List.findSome?_append, List.findSome?_singleton]
  rfl

/-- In each cell stands what was put there last. -/
theorem getElem?_after (b : FencedBuffer) (writes : List Write) (hi : i < b.cells.size) :
    (b.after writes).cells[i]? = (lastOf (Write.stored? b.size i) writes).or b.cells[i]? := by
  induction writes generalizing b with
  | nil => rfl
  | cons x rest ih =>
    have hcells : i < (b.step x).cells.size := by
      rw [size_cells, size_step, ← size_cells]
      exact hi
    rw [after_cons, ih _ hcells, size_step, getElem?_step b x hi, lastOf_cons, Option.or_assoc]

/-! ### The two parts after writes -/

theorem getElem?_payload_after (b : FencedBuffer) (writes : List Write) (hi : i < b.size) :
    (b.after writes).payload[i]? = (lastOf (Write.word? i) writes).or b.payload[i]? := by
  have hstored : Write.stored? b.size i = Write.word? i := funext fun x => if_pos hi
  have hcells : i < b.cells.size := b.size_cells ▸ Nat.lt_add_right 4 hi
  rw [getElem?_payload (by rwa [size_after]), getElem?_payload hi, getElem?_after b writes hcells,
    hstored]

theorem getElem?_fence_after (b : FencedBuffer) (writes : List Write) (hj : j < fenceSize) :
    (b.after writes).fence[j]? =
      (lastOf (Write.rawWord? (b.size + j)) writes).or b.fence[j]? := by
  have hstored : Write.stored? b.size (b.size + j) = Write.rawWord? (b.size + j) :=
    funext fun x => if_neg (Nat.not_lt.mpr (Nat.le_add_right ..))
  have hcells : b.size + j < b.cells.size := b.size_cells ▸ Nat.add_lt_add_left hj b.size
  rw [getElem?_fence hj, getElem?_fence hj, size_after, getElem?_after b writes hcells, hstored]

theorem eq_of_getElem?_eq {xs ys : Array Word} (hsize : xs.size = ys.size)
    (h : ∀ i < xs.size, xs[i]? = ys[i]?) : xs = ys := by
  refine Array.ext hsize fun i hi hi' => ?_
  have hword := h i hi
  rw [Array.getElem?_eq_getElem hi, Array.getElem?_eq_getElem hi'] at hword
  exact Option.some.inj hword

/-- Indexed writes leave the fence as it is. -/
theorem fence_step_indexed (b : FencedBuffer) (i : Nat) (w : Word) :
    (b.step (.indexed i w)).fence = b.fence := by
  refine eq_of_getElem?_eq (by simp) fun j hj => ?_
  exact getElem?_fence_after b [.indexed i w] (by simpa using hj)

/-- Raw writes behind the payload leave the payload as it is. -/
theorem payload_step_raw {w : Word} (h : b.size ≤ i) : (b.step (.raw i w)).payload = b.payload := by
  refine eq_of_getElem?_eq (by simp) fun j hj => ?_
  have hj : j < b.size := by simpa using hj
  have hnone : lastOf (Write.word? j) [.raw i w] = none := by
    have hne : i ≠ j := by omega
    simp [lastOf, Write.word?, hne]
  rw [← after_nil (b.step _), ← after_cons, getElem?_payload_after b _ hj, hnone, Option.none_or]

/-- A buffer that was given some words, or as many equal ones, and then written to through both
views, in any order: the lengths are those of the start. An indexed write fails exactly if it is
past the payload, and then nothing changes. Every cell of the payload holds the last word that was
written to it, or else its first one. Indexed writes never change the fence, nor raw ones behind the
payload the payload. The fence is intact exactly if, of the raw writes to each of its cells, the
last one wrote the fence word; so an overrun of that word, or one that is undone, does not show. And
the buffer is the one of the start exactly if its payload is and the fence is intact. -/
theorem writes_fenced (initial : Array Word) (writes : List Write) :
    let b := (ofArray initial).after writes
    (b.size = initial.size ∧ b.payload.size = initial.size ∧ b.fence.size = fenceSize) ∧
    (∀ i w e, b.perform (.indexed i w) = .error e ↔ initial.size ≤ i ∧ e = ⟨initial.size, i⟩) ∧
    (∀ i w, initial.size ≤ i → b.step (.indexed i w) = b) ∧
    (∀ i (hi : i < initial.size),
      b.payload[i]? = some ((lastOf (Write.word? i) writes).getD initial[i])) ∧
    (∀ i w, (b.step (.indexed i w)).fence = b.fence) ∧
    (∀ i w, initial.size ≤ i → (b.step (.raw i w)).payload = b.payload) ∧
    (b.isIntact ↔ ∀ j < fenceSize, ∀ w,
      lastOf (Write.rawWord? (initial.size + j)) writes = some w → w = fenceWord) ∧
    (b = ofArray initial ↔ b.payload = initial ∧ b.isIntact) := by
  intro b
  have hsize : b.size = initial.size := size_after ..
  refine ⟨⟨hsize, (size_payload b).trans hsize, size_fence b⟩, fun i w e => ?_, fun i w hi => ?_,
    fun i hi => ?_, fence_step_indexed b, fun i w hi => payload_step_raw (hsize ▸ hi), ?_, ?_⟩
  · rw [perform_indexed_eq_error_iff, hsize]
  · rw [step_indexed, if_neg (Nat.not_lt.mpr (hsize ▸ hi))]
  · rw [getElem?_payload_after _ _ hi, payload_ofArray, Array.getElem?_eq_getElem hi]
    cases lastOf (Write.word? i) writes <;> rfl
  · rw [isIntact_iff]
    refine forall_congr' fun j => forall_congr' fun hj => ?_
    have hfresh : (ofArray initial).fence[j]? = some fenceWord := by
      rw [fence_ofArray, fencePosts, Array.getElem?_replicate, if_pos hj]
    rw [getElem?_fence_after _ _ hj, hfresh, size_ofArray]
    cases lastOf (Write.rawWord? (initial.size + j)) writes <;> simp
  · rw [eq_iff, payload_ofArray, fence_ofArray, isIntact_iff_fence]

end FusedKernel.FencedBuffer
