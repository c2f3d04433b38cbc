import FusedKernel.Proofs.Kernel.Banks
import FusedKernel.Workbench.Basic

/-! Which checked calls are accepted. A call is refused if and only if its size cannot be expressed
or an input is too short for it, and then nothing is run. The size of an accepted one is the length
of its output, and whatever the kernel does, it stays inside the four arrays. -/
namespace FusedKernel

open Code

namespace Call

/-! ### Lengths -/

/-- The first input that is shorter than the output. -/
def FirstShort (lengths : PerBuffer Nat) (buffer : Buffer) : Prop :=
  ∃ before after, inputs = before ++ buffer :: after ∧
    lengths.get buffer < lengths.out ∧ ∀ earlier ∈ before, lengths.out ≤ lengths.get earlier

variable {lengths : PerBuffer Nat} {buffer : Buffer}

theorem find?_inputs_eq_some_iff :
    (inputs.find? fun buffer => lengths.get buffer < lengths.out) = some buffer ↔
      FirstShort lengths buffer := by
  rw [List.find?_eq_some_iff_append]
  simp only [decide_eq_true_eq, Bool.not_eq_true', decide_eq_false_iff_not, Nat.not_lt]
  constructor
  · rintro ⟨hshort, before, after, hinputs, hbefore⟩
    exact ⟨before, after, hinputs, hshort, hbefore⟩
  · rintro ⟨before, after, hinputs, hshort, hbefore⟩
    exact ⟨hshort, before, after, hinputs, hbefore⟩

theorem checkLengths_eq_sizeOverflow_iff {n : Nat} :
    checkLengths lengths = .error (.sizeOverflow n) ↔ maxSize < lengths.out ∧ n = lengths.out := by
  unfold checkLengths
  split
  next hmax => simp [hmax, eq_comm]
  next hmax => split <;> simp [hmax]

theorem checkLengths_eq_bufferTooShort_iff {length size : Nat} :
    checkLengths lengths = .error (.bufferTooShort buffer length size) ↔
      lengths.out ≤ maxSize ∧ FirstShort lengths buffer ∧ length = lengths.get buffer ∧
        size = lengths.out := by
  rw [← find?_inputs_eq_some_iff]
  unfold checkLengths
  split
  next hmax => simp [Nat.not_le.mpr hmax]
  next hmax =>
    cases inputs.find? fun buffer => lengths.get buffer < lengths.out with
    | none => simp
    | some found =>
      simp only [Except.error.injEq, CallError.bufferTooShort.injEq, Option.some.injEq]
      constructor
      · rintro ⟨rfl, rfl, rfl⟩
        exact ⟨Nat.not_lt.mp hmax, rfl, rfl, rfl⟩
      · rintro ⟨-, rfl, rfl, rfl⟩
        exact ⟨rfl, rfl, rfl⟩

theorem checkLengths_eq_error_iff :
    (∃ e, checkLengths lengths = .error e) ↔
      ¬ (lengths.out ≤ maxSize ∧ ∀ buffer ∈ inputs, lengths.out ≤ lengths.get buffer) := by
  constructor
  · rintro ⟨e, he⟩ ⟨hmax, hle⟩
    cases (checkLengths_eq_ok hmax hle).symm.trans he
  · intro h
    cases hsize : checkLengths lengths with
    | error e => exact ⟨e, rfl⟩
    | ok size =>
      refine absurd ?_ h
      unfold checkLengths at hsize
      split at hsize
      · cases hsize
      next hmax =>
        split at hsize
        · cases hsize
        next hnone => exact ⟨Nat.not_lt.mp hmax, by simpa using List.find?_eq_none.mp hnone⟩

/-- The greatest size can be expressed, and so can all below it. -/
theorem toInt_ofNat {n : Nat} (hn : n ≤ maxSize) : (BitVec.ofNat 32 n).toInt = n := by
  unfold maxSize at hn
  rw [BitVec.toInt_ofNat', Int.bmod_eq_of_le (by omega) (by omega)]

/-! ### Accesses -/

namespace Slices

/-- A load of an element of an input, or a store to an element of the output. -/
inductive Inside (x : Slices) : Access → Prop
  | load {buffer : Buffer} {i : Nat} : buffer ∈ inputs → i < x.lengths.get buffer →
    Inside x (.load (x.cell i buffer))
  | store {i : Nat} : i < x.lengths.out → Inside x (.store (x.cell i .out))

variable {x : Slices}

theorem Accepted.fitsSpace (h : x.Accepted) :
    OperatorPair.FitsSpace x.base (BitVec.ofNat 32 x.size) := by
  intro _ buffer
  have hl := h.size_le_length buffer
  have hf := x.fits buffer
  rw [toInt_ofNat h.size_le, Int.toNat_natCast]
  unfold cellBytes at hf ⊢
  omega

/-- The footprint of an accepted call is inside the arrays. -/
theorem Accepted.inside (h : x.Accepted) {a : Access}
    (ha : OperatorPair.Footprint x.base (BitVec.ofNat 32 x.size) a) : x.Inside a := by
  have hlt : ∀ {i : Nat}, (i : Int) < (BitVec.ofNat 32 x.size).toInt → i < x.size := by
    intro i hi
    rw [toInt_ofNat h.size_le] at hi
    omega
  cases ha with
  | load hb hi => exact .load hb (Nat.lt_of_lt_of_le (hlt hi) (h.le_length _ hb))
  | store hi => exact .store (hlt hi)

/-! ### Calls -/

/-- A checked call is refused with an error, and nothing else in the call matters to that. -/
theorem call_eq_error_iff (x : Slices) (f : Function) (m : Memory) {e : CallError} :
    x.call f m = .error e ↔ checkLengths x.lengths = .error e := by
  unfold call checkedAt
  split
  next e' he => simp [he]
  next size hs => simp [hs]

theorem Accepted.call_eq (h : x.Accepted) (f : Function) (m : Memory) :
    x.call f m = .ok (f.callRaw (BitVec.ofNat 32 x.size) x.base m).memory := by
  rw [call, checkedAt, checkLengths_eq_ok h.size_le h.le_length]
  rfl

theorem accepted_iff :
    x.Accepted ↔ x.size ≤ maxSize ∧ ∀ buffer ∈ inputs, x.size ≤ x.lengths.get buffer :=
  ⟨fun h => ⟨h.size_le, h.le_length⟩, fun h => ⟨h.1, h.2⟩⟩

/-- Until it returns or traps, an accepted call of a pair's function stays inside the arrays. -/
theorem Accepted.exists_callRaw_eq (h : x.Accepted) (ops : OperatorPair) (number : Nat)
    (m : Memory) :
    let f := ops.toFunction number
    ∃ s, (f.callRaw (BitVec.ofNat 32 x.size) x.base m = .returned s ∨
        f.callRaw (BitVec.ofNat 32 x.size) x.base m = .trapped s) ∧
      ∀ a ∈ s.accesses, x.Inside a := by
  intro f
  obtain ⟨s, hend, hs⟩ := ops.program.exists_callRaw_eq number (BitVec.ofNat 32 x.size) x.base m
    fun i hi a ha => OperatorPair.accesses_program h.fitsSpace hi ha
  exact ⟨s, hend, fun a ha => h.inside (hs a ha)⟩

end Slices

/-- The answer to a refused call has the arrays as they were, and nothing else changes. -/
theorem perform_call_of_refused {w : Workbench} {image name : Workbench.Slot} {s : Image}
    {k : Kernel} {buffers : PerBuffer (Array Word)} {e : CallError}
    (hs : w.images[image]? = some s) (hk : s.resolve name = .ok k)
    (he : checkLengths (buffers.map Array.size) = .error e) :
    w.perform (.call image (.name name) buffers) =
      ⟨w, .refused e buffers, [.resolved k.name]⟩ := by
  have hchecked : checked k.code buffers = .error e := by
    rw [checked, checkedAt, he]
    rfl
  simp [Workbench.perform, Workbench.withKernel, Workbench.withImage, hs, hk, hchecked]

/-- A checked call of a pair's function is refused for its size if and only if no size expresses the
length of the output; else for an input if and only if this is the first that is too short. So the
calls that are refused are those that cannot be done, and none of them runs any code, whatever this
is and whatever memory holds: the answer to it has the arrays as they were. Any other call runs over
a size that is the length of the output, and until it returns or traps it loads only elements of the
inputs and stores only elements of the output. -/
theorem refused_or_inside (ops : OperatorPair) (number : Nat) (x : Slices) (m : Memory) :
    let f := ops.toFunction number
    (∀ n, x.call f m = .error (.sizeOverflow n) ↔ maxSize < x.size ∧ n = x.size) ∧
    (∀ buffer length size, x.call f m = .error (.bufferTooShort buffer length size) ↔
      x.size ≤ maxSize ∧ FirstShort x.lengths buffer ∧ length = x.lengths.get buffer ∧
        size = x.size) ∧
    ((∃ e, x.call f m = .error e) ↔ ¬ x.Accepted) ∧
    (∀ e, x.call f m = .error e → ∀ (g : Function) (m' : Memory), x.call g m' = .error e) ∧
    (∀ (w : Workbench) (image name : Workbench.Slot) (s : Image) (k : Kernel)
      (buffers : PerBuffer (Array Word)) (e : CallError), w.images[image]? = some s →
      s.resolve name = .ok k → buffers.map Array.size = x.lengths → x.call f m = .error e →
      w.perform (.call image (.name name) buffers) =
        ⟨w, .refused e buffers, [.resolved k.name]⟩) ∧
    (x.Accepted → ∃ (size : Word) (s : State), size.toInt = x.size ∧
      x.call f m = .ok (f.callRaw size x.base m).memory ∧
      (f.callRaw size x.base m = .returned s ∨ f.callRaw size x.base m = .trapped s) ∧
      ∀ a ∈ s.accesses, x.Inside a) := by
  intro f
  refine ⟨fun n => ?_, fun buffer length size => ?_, ?_, fun e he g m' => ?_,
    fun w image name s k buffers e hs hk hlengths he => ?_, fun h => ?_⟩
  · exact (x.call_eq_error_iff f m).trans checkLengths_eq_sizeOverflow_iff
  · exact (x.call_eq_error_iff f m).trans checkLengths_eq_bufferTooShort_iff
  · simp only [x.call_eq_error_iff f m, Slices.accepted_iff]
    exact checkLengths_eq_error_iff
  · exact (x.call_eq_error_iff g m').mpr ((x.call_eq_error_iff f m).mp he)
  · exact perform_call_of_refused hs hk (hlengths ▸ (x.call_eq_error_iff f m).mp he)
  · obtain ⟨s, hend, hs⟩ := h.exists_callRaw_eq ops number m
    exact ⟨_, s, toInt_ofNat h.size_le, h.call_eq f m, hend, hs⟩

/-- The second input is too short, and so is the third one, which is not reported. The division
would trap. A call on longer inputs runs over the two elements of its output. -/
theorem refused_or_inside_short :
    let m := Memory.ofContents fun _ => 0
    let f := OperatorPair.toFunction ⟨.divide, .modular⟩ 0
    let k : Kernel := ⟨⟨"k", ⟨.divide, .modular⟩, 0, 0⟩, none, f⟩
    let w : Workbench := { images := Std.HashMap.ofList [("s", ⟨0, #[k], .ofList [("k", 0)]⟩)] }
    let buffers : PerBuffer (Array Word) := ⟨#[0, 0, 0], #[0], #[0], #[7, 8]⟩
    let short := Slices.inBanks ⟨3, 1, 1, 2⟩ fun buffer => by cases buffer <;> decide
    let long := Slices.inBanks ⟨2, 2, 3, 2⟩ fun buffer => by cases buffer <;> decide
    short.call f m = .error (.bufferTooShort .b 1 2) ∧
    w.perform (.call "s" (.name "k") buffers) =
      ⟨w, .refused (.bufferTooShort .b 1 2) buffers, [.resolved "k"]⟩ ∧
    ∃ (size : Word) (s : State), size.toInt = 2 ∧
      (f.callRaw size long.base m = .returned s ∨ f.callRaw size long.base m = .trapped s) ∧
      ∀ a ∈ s.accesses, long.Inside a := by
  intro m f k w buffers short long
  obtain ⟨-, hshort, -, -, hanswer, -⟩ := refused_or_inside ⟨.divide, .modular⟩ 0 short m
  have hrefused : short.call f m = .error (.bufferTooShort .b 1 2) :=
    (hshort .b 1 2).mpr ⟨by decide, ⟨[.a], [.c], rfl, by decide, by decide⟩, rfl, rfl⟩
  have hk : Image.resolve ⟨0, #[k], .ofList [("k", 0)]⟩ "k" = .ok k := by
    simp [Image.resolve, Image.kernel?]
  have hw := hanswer w "s" "k" _ k buffers _ (by simp [w]) hk rfl hrefused
  have haccepted : long.Accepted := ⟨by decide, by decide⟩
  obtain ⟨-, -, -, -, -, hlong⟩ := refused_or_inside ⟨.divide, .modular⟩ 0 long m
  obtain ⟨size, s, hsize, -, hend, hs⟩ := hlong haccepted
  exact ⟨hrefused, hw, size, s, hsize, hend, hs⟩

end Call

end FusedKernel
