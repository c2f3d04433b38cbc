import Mathlib.Tactic.Common
import FusedKernel.Kernel.Call
import FusedKernel.Proofs.Kernel.StraightLine

/-! The function of a program does what the loop over its elements does. The invariant is the state
in which the condition is entered: it knows the size, the bases and the index, and memory is that of
the loop. One element takes two blocks, the condition and the body. -/
namespace FusedKernel

open Code

namespace Emission

/-- The condition is entered for an index. -/
structure AtIndex (width : AddressWidth) (size : Word) (base : Buffer → BitVec width.bits) (i : Nat)
    (s : State) : Prop where
  size : s.value Emission.size = .ok (.word size)
  base : ∀ buffer, s.value (Emission.base buffer) = .ok (width.pointer (base buffer))
  index : s.value index = .ok (.word (BitVec.ofNat 32 i))

variable {P : Access → Prop} {width : AddressWidth} {size : Word}
  {base : Buffer → BitVec width.bits} {i : Nat} {s t : State} {p : Program} (number : Nat)

/-- The address of a buffer's element. -/
def cell (base : Buffer → BitVec width.bits) (i : Nat) : Buffer → Address :=
  Program.elementAddress width.space (fun buffer => (base buffer).toNat) i

/-- The elements from an index on. -/
def elementsFrom (p : Program) (base : Buffer → BitVec width.bits) (i n : Nat) (m : Memory) :
    Except Program.Hazard Memory :=
  p.elementsFrom width.space (fun buffer => (base buffer).toNat) i n m

theorem elementsFrom_succ (p : Program) (base : Buffer → BitVec width.bits) (i n : Nat)
    (m : Memory) :
    elementsFrom p base i (n + 1) m =
      match Program.assignAll (cell base i) i 0 p.assignments m with
      | .error hazard => .error hazard
      | .ok m => elementsFrom p base (i + 1) n m := rfl

theorem AtIndex.keeps (h : AtIndex width size base i s) {bound : Nat} (hb : 6 < bound)
    (hk : s.Keeps P bound t) : AtIndex width size base i t := by
  have hbase : ∀ buffer, Emission.base buffer ≤ 4 := fun buffer => by cases buffer <;> decide
  refine ⟨?_, fun buffer => ?_, ?_⟩
  · rw [hk.value _ (Nat.lt_of_le_of_lt (by decide) hb), h.size]
  · rw [hk.value _ (Nat.lt_of_le_of_lt (Nat.le_trans (hbase buffer) (by decide)) hb), h.base]
  · rw [hk.value Emission.index hb, h.index]

/-! ### The byte offset -/

theorem signExtend_index (hi : i < 0x80000000) :
    (BitVec.ofNat 32 i).signExtend 64 = BitVec.ofNat 64 i := by
  apply BitVec.eq_of_toInt_eq
  rw [BitVec.toInt_signExtend_of_le (by decide), BitVec.toInt_ofNat', BitVec.toInt_ofNat']
  rw [Int.bmod_eq_of_le (by omega) (by omega), Int.bmod_eq_of_le (by omega) (by omega)]

theorem add_offset_toNat (width : AddressWidth) (b : BitVec width.bits) (i : Nat) :
    (b + BitVec.ofNat width.bits i * BitVec.ofInt width.bits 4).toNat =
      (b.toNat + cellBytes * i) % width.space := by
  have hfour : BitVec.ofInt width.bits 4 = BitVec.ofNat width.bits 4 := BitVec.ofInt_ofNat _ 4
  have hspace : width.space = 2 ^ width.bits := by cases width <;> rfl
  rw [hfour, BitVec.toNat_add, BitVec.toNat_mul, BitVec.toNat_ofNat, BitVec.toNat_ofNat,
    ← Nat.mul_mod, Nat.add_mod_mod, Nat.mul_comm, hspace]
  rfl

/-- The byte offset is computed at the width of addresses. -/
theorem value_offsetCode (h : AtIndex width size base i s) (hi : i < 0x80000000) :
    ∃ t, runBody s (offsetCode width) = .ok t ∧ s.Keeps P 8 t ∧ t.memory = s.memory ∧
      t.value (offset width) =
        .ok (width.pointer (BitVec.ofNat width.bits i * BitVec.ofInt width.bits 4)) := by
  have hindex := h.index
  cases width with
  | bits32 =>
    obtain ⟨t, ht, hk, hm, hv⟩ := Statement.step_define (P := P) (s := s) 8 (.mulImm .i32 index 4)
      (v := .word (BitVec.ofNat 32 i * BitVec.ofInt 32 4))
      (by simp only [Definition.eval, hindex]; rfl) (by simp [Definition.access?])
    refine ⟨t, ?_, hk, hm, hv⟩
    rw [offsetCode, runBody_cons_of_ok ht]
    rfl
  | bits64 =>
    obtain ⟨t, ht, hkt, hmt, hvt⟩ := Statement.step_define (P := P) (s := s) 8 (.extend .i64 index)
      (v := .wide (BitVec.ofNat 64 i))
      (by simp only [Definition.eval, hindex, ← signExtend_index hi]; rfl)
      (by simp [Definition.access?])
    obtain ⟨u, hu, hku, hmu, hvu⟩ := Statement.step_define (P := P) (s := t) 9 (.mulImm .i64 8 4)
      (v := .wide (BitVec.ofNat 64 i * BitVec.ofInt 64 4))
      (by simp only [Definition.eval, hvt]; rfl) (by simp [Definition.access?])
    refine ⟨u, ?_, hkt.trans hku (by decide), hmu.trans hmt, hvu⟩
    rw [offsetCode, runBody_cons_of_ok ht, runBody_cons_of_ok hu]
    rfl

/-- All elements of the index are reached with the byte offset. -/
theorem runBody_offsetCode (h : AtIndex width size base i s) (hi : i < 0x80000000) :
    ∃ t, runBody s (offsetCode width) = .ok t ∧ s.Keeps P 8 t ∧ t.memory = s.memory ∧
      (element width).Reaches (cell base i) t := by
  obtain ⟨t, ht, hk, hm, hv⟩ := value_offsetCode (P := P) h hi
  have hbase := (h.keeps (by decide) hk).base
  exact ⟨t, ht, hk, hm,
    fun buffer => ⟨base buffer, _, hbase buffer, hv, add_offset_toNat width (base buffer) i⟩⟩

theorem before_firstFree (width : AddressWidth) : (element width).Before (firstFree width) := by
  cases width <;> exact ⟨by decide, by decide⟩

theorem eight_le_firstFree (width : AddressWidth) : 8 ≤ firstFree width := by
  cases width <;> decide

/-! ### One block -/

/-- How many elements a size asks for. -/
def count (size : Word) : Nat := size.toInt.toNat

theorem count_lt (size : Word) : count size < 0x80000000 := by
  have h := BitVec.toInt_lt (x := size)
  unfold count
  omega

theorem toInt_index (hi : i ≤ count size) : (BitVec.ofNat 32 i).toInt = i := by
  have hc := count_lt size
  rw [BitVec.toInt_ofNat', Int.bmod_eq_of_le (by omega) (by omega)]

theorem slt_size (hi : i ≤ count size) :
    (BitVec.ofNat 32 i).slt size = decide (i < count size) := by
  rw [BitVec.slt, toInt_index hi, decide_eq_decide]
  unfold count at hi ⊢
  omega

theorem runBody_condition (h : AtIndex width size base i s) (hi : i ≤ count size) :
    ∃ t, runBody s conditionCode.body = .ok t ∧ s.Keeps P 7 t ∧ t.memory = s.memory ∧
      t.value inBounds = .ok (.flag (decide (i < count size))) := by
  obtain ⟨t, ht, hk, hm, hv⟩ := Statement.step_define (P := P) (s := s) 7
    (.lessThan .i32 index Emission.size) (v := .flag ((BitVec.ofNat 32 i).slt size))
    (by simp only [Definition.eval, h.index, h.size]; rfl) (by simp [Definition.access?])
  refine ⟨t, ?_, hk, hm, by rw [← slt_size hi]; exact hv⟩
  rw [conditionCode, inBounds, runBody_cons_of_ok ht]
  rfl

/-- The condition lets the body run for an index below the size. -/
theorem step_condition (h : AtIndex width size base i s) (hi : i < count size) :
    ∃ t, (p.toFunction width number).step s conditionBlock = .goto bodyBlock t ∧
      AtIndex width size base i t ∧ t.memory = s.memory ∧ s.Keeps P 7 t := by
  obtain ⟨t, ht, hk, hm, hv⟩ := runBody_condition (P := P) h (Nat.le_of_lt hi)
  refine ⟨t, ?_, h.keeps (by decide) hk, hm, hk⟩
  rw [Function.step_of_runBody _ (by simp [conditionBlock]) ht]
  simp [conditionCode, Function.follow, hv, hi, Function.enter, bodyBlock, bodyCode, State.bindAll]

/-- The condition ends the loop at the size. -/
theorem step_condition_size (h : AtIndex width size base (count size) s) :
    ∃ t, (p.toFunction width number).step s conditionBlock = .goto exitBlock t ∧
      t.memory = s.memory ∧ s.Keeps P 7 t := by
  obtain ⟨t, ht, hk, hm, hv⟩ := runBody_condition (P := P) h (Nat.le_refl _)
  refine ⟨t, ?_, hm, hk⟩
  rw [Function.step_of_runBody _ (by simp [conditionBlock]) ht]
  simp [conditionCode, Function.follow, hv, Function.enter, exitBlock, exitCode, State.bindAll]

theorem step_exit (s : State) : (p.toFunction width number).step s exitBlock = .returned s := by
  simp [Function.step, exitBlock, exitCode, runBody, Function.follow]

theorem after_condition_size (h : AtIndex width size base (count size) s) :
    ∃ t, (p.toFunction width number).after 2 (.goto conditionBlock s) = .returned t ∧
      t.memory = s.memory ∧ s.Keeps P 7 t := by
  obtain ⟨t, ht, hm, hk⟩ := step_condition_size (P := P) (p := p) number h
  refine ⟨t, ?_, hm, hk⟩
  rw [Function.after_goto, ht, Function.after_goto, step_exit, Function.after_zero]

/-- The condition is entered with a value for the index. -/
theorem follow_jump_condition {x : Nat} (hi : s.value x = .ok (.word (BitVec.ofNat 32 i)))
    (hsize : s.value Emission.size = .ok (.word size))
    (hbase : ∀ buffer, s.value (Emission.base buffer) = .ok (width.pointer (base buffer))) :
    ∃ t, (p.toFunction width number).follow s (.jump conditionBlock [x]) =
        .goto conditionBlock t ∧
      AtIndex width size base i t ∧ t.memory = s.memory ∧ s.Keeps P 6 t := by
  have hk : s.Keeps P 6 (s.bind index (.word (BitVec.ofNat 32 i))) :=
    ⟨fun y hy => (s.value_bind index y _).trans (if_neg (Nat.ne_of_gt hy)), fun h => h⟩
  have hb : ∀ buffer, Emission.base buffer < 6 := fun buffer => by cases buffer <;> decide
  refine ⟨s.bind index (.word (BitVec.ofNat 32 i)), ?_, ⟨?_, fun buffer => ?_, ?_⟩, rfl, hk⟩
  · simp [Function.follow, hi, Function.enter, conditionBlock, conditionCode, State.bindAll]
  · rw [hk.value Emission.size (by decide), hsize]
  · rw [hk.value _ (hb buffer), hbase]
  · exact (s.value_bind index index _).trans (if_pos rfl)

/-- Running the body for an index does its assignments. -/
theorem step_body (h : AtIndex width size base i s) (hi : i < count size)
    (hP : ∀ a ∈ p.assignments, Accesses P (cell base i) a) {m : Memory}
    (hm : Program.assignAll (cell base i) i 0 p.assignments s.memory = .ok m) :
    ∃ t, (p.toFunction width number).step s bodyBlock = .goto conditionBlock t ∧
      AtIndex width size base (i + 1) t ∧ t.memory = m ∧ s.Keeps P 6 t := by
  have hc := count_lt size
  obtain ⟨t, ht, hkt, hmt, hrt⟩ := runBody_offsetCode (P := P) h (by omega)
  obtain ⟨u, hu, hku, hmu⟩ := runBody_assignmentsCode p.assignments (before_firstFree width) hP hrt
    (by rw [hmt]; exact hm)
  have hsu := hkt.trans hku (eight_le_firstFree width)
  have hau := h.keeps (by decide) hsu
  obtain ⟨v, hv, hkv, hmv, hvv⟩ := Statement.step_define (P := P) (s := u) (following width p)
    (.addImm .i32 index 1) (v := .word (BitVec.ofNat 32 (i + 1)))
    (by simp only [Definition.eval, hau.index, BitVec.ofNat_add]; rfl)
    (by simp [Definition.access?])
  have hsv := hsu.trans hkv (Nat.le_trans (eight_le_firstFree width) (Nat.le_add_right _ _))
  have hav := h.keeps (by decide) hsv
  obtain ⟨w, hw, haw, hmw, hkw⟩ := follow_jump_condition (P := P) (p := p) number hvv
    hav.size hav.base
  have hbody : runBody s (bodyCode width p).body = .ok v := by
    rw [bodyCode, runBody_append_of_ok ht, runBody_append_of_ok hu, runBody_cons_of_ok hv]
    rfl
  refine ⟨w, ?_, haw, by rw [hmw, hmv, hmu], ?_⟩
  · rw [Function.step_of_runBody _ (by simp [bodyBlock]) hbody]
    exact hw
  · exact ⟨fun x hx => (hkw.value x hx).trans (hsv.value x (by omega)),
      fun hs => hkw.accesses (hsv.accesses hs)⟩

/-- The body stops at the operator at which doing the assignments of an index stops. -/
theorem stopsAt_body (h : AtIndex width size base i s) (hi : i < count size)
    (hP : ∀ a ∈ p.assignments, Accesses P (cell base i) a) {hazard : Program.Hazard}
    (hm : Program.assignAll (cell base i) i 0 p.assignments s.memory = .error hazard) :
    ∃ statement t, StopsAt s (bodyCode width p).body (hazard.position width p) statement t ∧
      hazard.stuck.IsAt statement t ∧ t.memory = hazard.memory ∧ s.Keeps P 8 t ∧
      hazard.element = i := by
  have hc := count_lt size
  obtain ⟨t, ht, hkt, hmt, hrt⟩ := runBody_offsetCode (P := P) h (by omega)
  obtain ⟨statement, u, hu, hau, hku, hmu, hiu, -⟩ := stopsAt_assignmentsCode p.assignments
    (before_firstFree width) hP hrt (by rw [hmt]; exact hm)
  exact ⟨statement, u, (hu.append _).after ht, hau, hmu, hkt.trans hku (eight_le_firstFree width),
    hiu⟩

/-! ### The whole loop -/

/-- The first block starts the index at zero. -/
theorem after_start (p : Program) (number : Nat) (size : Word) (base : Buffer → BitVec width.bits)
    (m : Memory) :
    ∃ t, (p.toFunction width number).after 1
          ((p.toFunction width number).start (Function.callArguments width size base) m) =
        .goto conditionBlock t ∧
      AtIndex width size base 0 t ∧ t.memory = m ∧ ∀ a ∈ t.accesses, P a := by
  let s : State := (((((⟨∅, m, []⟩ : State).bind 0 (.word size)).bind 1
    (width.pointer (base .a))).bind 2 (width.pointer (base .b))).bind 3
    (width.pointer (base .c))).bind 4 (width.pointer (base .out))
  have hstart : (p.toFunction width number).start (Function.callArguments width size base) m =
      .goto 0 s := by
    simp [Function.start, Function.enter, entryCode, Draft.numbered, signature,
      Function.callArguments,
      Buffer.all, State.bindAll, s]
  have hsize : s.value Emission.size = .ok (.word size) := by simp [s, Emission.size]
  have hbase : ∀ buffer, s.value (Emission.base buffer) = .ok (width.pointer (base buffer)) := by
    intro buffer
    cases buffer <;> simp [s, Emission.base, Buffer.index]
  obtain ⟨t, ht, hk, hm, hv⟩ := Statement.step_define (P := P) (s := s) 5 (.const .i32 0)
    (v := .word (BitVec.ofNat 32 0)) rfl (by simp [Definition.access?])
  have hkeep : ∀ buffer, Emission.base buffer < 5 := fun buffer => by cases buffer <;> decide
  obtain ⟨u, hu, hau, hmu, hku⟩ := follow_jump_condition (P := P) (p := p) number hv
    (by rw [hk.value Emission.size (by decide), hsize])
    (fun buffer => by rw [hk.value _ (hkeep buffer), hbase])
  have hbody : runBody s (entryCode width).body = .ok t := by
    rw [entryCode, start, runBody_cons_of_ok ht]
    rfl
  refine ⟨u, ?_, hau, hmu.trans hm, hku.accesses (hk.accesses (by simp [s, State.bind]))⟩
  rw [hstart, Function.after_goto, Function.step_of_runBody _ (by simp) hbody, Function.after_zero]
  exact hu

/-- From an index on, the function returns with the memory of the loop. -/
theorem after_elementsFrom
    (hP : ∀ i < count size, ∀ a ∈ p.assignments, Accesses P (cell base i) a) {n : Nat}
    (hn : i + n = count size) (h : AtIndex width size base i s) {m : Memory}
    (hm : elementsFrom p base i n s.memory = .ok m) :
    ∃ t, (p.toFunction width number).after (2 * n + 2) (.goto conditionBlock s) = .returned t ∧
      t.memory = m ∧ ((∀ a ∈ s.accesses, P a) → ∀ a ∈ t.accesses, P a) := by
  induction n generalizing i s with
  | zero =>
    obtain rfl : i = count size := hn
    obtain ⟨t, ht, hmt, hk⟩ := after_condition_size (P := P) (p := p) number h
    exact ⟨t, ht, hmt.trans (Except.ok.inj hm), hk.accesses⟩
  | succ n ih =>
    rw [elementsFrom_succ] at hm
    cases hw : Program.assignAll (cell base i) i 0 p.assignments s.memory with
    | error hazard => simp [hw] at hm
    | ok m' =>
      simp only [hw] at hm
      have hi : i < count size := by omega
      obtain ⟨t, ht, hat, hmt, hkt⟩ := step_condition (P := P) (p := p) number h hi
      obtain ⟨u, hu, hau, hmu, hku⟩ := step_body number hat hi (hP i hi)
        (by rw [hmt]; exact hw)
      obtain ⟨v, hv, hmv, hpv⟩ := ih (by omega) hau (by rw [hmu]; exact hm)
      refine ⟨v, ?_, hmv, fun hs => hpv (hku.accesses (hkt.accesses hs))⟩
      rw [show 2 * (n + 1) + 2 = 2 * n + 2 + 1 + 1 by omega, Function.after_goto, ht,
        Function.after_goto, hu, hv]

/-- From an index on, the function traps where the loop ends early: after two blocks for each
element before, at the operator without value. -/
theorem trapsAt_elementsFrom
    (hP : ∀ i < count size, ∀ a ∈ p.assignments, Accesses P (cell base i) a) {n : Nat}
    (hn : i + n = count size) (h : AtIndex width size base i s) {hazard : Program.Hazard}
    (hm : elementsFrom p base i n s.memory = .error hazard) :
    ∃ k statement t, hazard.element = i + k ∧ k < n ∧
      (p.toFunction width number).TrapsAt (.goto conditionBlock s) (2 * k + 1) bodyBlock
        (hazard.position width p) statement t ∧
      hazard.stuck.IsAt statement t ∧ t.memory = hazard.memory ∧
      ((∀ a ∈ s.accesses, P a) → ∀ a ∈ t.accesses, P a) := by
  induction n generalizing i s with
  | zero => cases hm
  | succ n ih =>
    rw [elementsFrom_succ] at hm
    have hi : i < count size := by omega
    obtain ⟨t, ht, hat, hmt, hkt⟩ := step_condition (P := P) (p := p) number h hi
    cases hw : Program.assignAll (cell base i) i 0 p.assignments s.memory with
    | error hazard' =>
      simp only [hw, Except.error.injEq] at hm
      subst hm
      obtain ⟨statement, u, hu, hau, hmu, hku, hiu⟩ := stopsAt_body hat hi (hP i hi)
        (by rw [hmt]; exact hw)
      refine ⟨0, statement, u, hiu, by omega, ⟨t, bodyCode width p, ?_, by simp [bodyBlock], hu⟩,
        hau, hmu, fun hs => hku.accesses (hkt.accesses hs)⟩
      rw [Nat.mul_zero, Function.after_goto, ht, Function.after_zero]
    | ok m' =>
      simp only [hw] at hm
      obtain ⟨u, hu, hau, hmu, hku⟩ := step_body number hat hi (hP i hi)
        (by rw [hmt]; exact hw)
      obtain ⟨k, statement, v, hk, hkn, hv, hav, hmv, hpv⟩ := ih (by omega) hau
        (by rw [hmu]; exact hm)
      have hblocks : (p.toFunction width number).after 2 (.goto conditionBlock s) =
          .goto conditionBlock u := by
        rw [Function.after_goto, ht, Function.after_goto, hu, Function.after_zero]
      refine ⟨k + 1, statement, v, by omega, by omega, ?_, hav, hmv,
        fun hs => hpv (hku.accesses (hkt.accesses hs))⟩
      rw [show 2 * (k + 1) + 1 = 2 + (2 * k + 1) by omega]
      exact hv.of_after hblocks

end Emission

namespace Program

open Emission

variable {P : Access → Prop} {width : AddressWidth} {base : Buffer → BitVec width.bits}
  {size : Word} {p : Program} {m : Memory}

/-- All elements of a program, on buffers at given addresses. -/
def run (p : Program) (base : Buffer → BitVec width.bits) (size : Word) (m : Memory) :
    Except Hazard Memory :=
  p.onMemory width.space (fun buffer => (base buffer).toNat) size m

/-- The function of a program returns if all elements can be done. -/
theorem call_of_run_eq_ok (number : Nat)
    (hP : ∀ i < count size, ∀ a ∈ p.assignments, Accesses P (cell base i) a) {after : Memory}
    (h : p.run base size m = .ok after) :
    ∃ s, s.memory = after ∧ (∀ a ∈ s.accesses, P a) ∧ ∀ spare,
      (p.toFunction width number).call (Function.blockLimit size + spare)
        (Function.callArguments width size base) m = .returned s := by
  obtain ⟨s, hs, hat, hms, hps⟩ := after_start (P := P) p number size base m
  obtain ⟨t, ht, hmt, hpt⟩ := after_elementsFrom number hP
    (Nat.zero_add (count size)) hat (by rw [hms]; exact h)
  refine ⟨t, hmt, hpt hps, fun spare => ?_⟩
  have hlimit : Function.blockLimit size + spare = 1 + ((2 * count size + 2) + spare) := by
    unfold Function.blockLimit count
    omega
  rw [Function.call, hlimit, Function.run_add, hs, Function.run_add, ht, Function.run]

/-- The function of a program traps where its elements stop. -/
theorem call_of_run_eq_error (number : Nat)
    (hP : ∀ i < count size, ∀ a ∈ p.assignments, Accesses P (cell base i) a) {hazard : Hazard}
    (h : p.run base size m = .error hazard) :
    ∃ statement s, s.memory = hazard.memory ∧ (∀ a ∈ s.accesses, P a) ∧
      (p.toFunction width number).TrapsAt
        ((p.toFunction width number).start (Function.callArguments width size base) m)
        (2 * hazard.element + 2) bodyBlock (hazard.position width p) statement s ∧
      hazard.stuck.IsAt statement s ∧ hazard.element < count size ∧ ∀ spare,
        (p.toFunction width number).call (Function.blockLimit size + spare)
          (Function.callArguments width size base) m = .trapped s := by
  obtain ⟨s, hs, has, hms, hps⟩ := after_start (P := P) p number size base m
  obtain ⟨k, statement, t, hk, hkn, ht, hat, hmt, hpt⟩ := trapsAt_elementsFrom
    number hP (Nat.zero_add (count size)) has (by rw [hms]; exact h)
  have htrap := ht.of_after hs
  rw [show 1 + (2 * k + 1) = 2 * hazard.element + 2 by omega] at htrap
  refine ⟨statement, t, hmt, hpt hps, htrap, hat, by omega, fun spare => ?_⟩
  apply htrap.run_eq
  unfold Function.blockLimit
  unfold count at hkn
  omega

/-- The function of a program returns or traps, and until then it accesses what its elements do. -/
theorem exists_call_eq (p : Program) (number : Nat) (size : Word)
    (base : Buffer → BitVec width.bits) (m : Memory)
    (hP : ∀ i < count size, ∀ a ∈ p.assignments, Accesses P (cell base i) a) :
    ∃ s, (∀ a ∈ s.accesses, P a) ∧
      ((∀ spare, (p.toFunction width number).call (Function.blockLimit size + spare)
          (Function.callArguments width size base) m = .returned s) ∨
        ∀ spare, (p.toFunction width number).call (Function.blockLimit size + spare)
          (Function.callArguments width size base) m = .trapped s) := by
  cases hrun : p.run base size m with
  | ok after =>
    obtain ⟨s, -, hs, hcall⟩ := call_of_run_eq_ok number hP hrun
    exact ⟨s, hs, .inl hcall⟩
  | error hazard =>
    obtain ⟨_, s, -, hs, -, -, -, hcall⟩ := call_of_run_eq_error number hP hrun
    exact ⟨s, hs, .inr hcall⟩

/-- The memory at the end of a call is that of the loop. -/
theorem memory_call (p : Program) {width : AddressWidth} (number : Nat) (size : Word)
    (base : Buffer → BitVec width.bits) (spare : Nat) (m : Memory) :
    ((p.toFunction width number).call (Function.blockLimit size + spare)
        (Function.callArguments width size base) m).memory =
      match p.run base size m with
      | .ok after => .returned after
      | .error hazard => .trapped hazard.memory := by
  split
  next after h =>
    obtain ⟨s, rfl, -, hs⟩ := call_of_run_eq_ok number (fun _ _ _ _ => accesses_true _ _) h
    exact congrArg Function.Outcome.memory (hs spare)
  next hazard h =>
    obtain ⟨_, s, hms, -, -, -, -, hs⟩ :=
      call_of_run_eq_error number (fun _ _ _ _ => accesses_true _ _) h
    rw [← hms]
    exact congrArg Function.Outcome.memory (hs spare)

theorem memory_callRaw (p : Program) (number : Nat) (size : Word)
    (base : Buffer → BitVec AddressWidth.bits64.bits) (m : Memory) :
    ((p.toFunction .bits64 number).callRaw size base m).memory =
      match p.run base size m with
      | .ok after => .returned after
      | .error hazard => .trapped hazard.memory :=
  p.memory_call number size base 0 m

/-- The function of a program does exactly what the loop over its elements does, on every memory and
wherever the buffers lie. If the loop ends early, the function traps in the body of that element, at
the statement of the operator without value and with the operands that it had there. -/
theorem toFunction_refines_loop (p : Program) (width : AddressWidth) (number : Nat) (size : Word)
    (base : Buffer → BitVec width.bits) (m : Memory) (spare : Nat) :
    let f := p.toFunction width number
    let arguments := Function.callArguments width size base
    match p.onMemory width.space (fun buffer => (base buffer).toNat) size m with
    | .ok after => ∃ s, f.call (Function.blockLimit size + spare) arguments m = .returned s ∧
        s.memory = after
    | .error hazard => ∃ statement s,
        f.call (Function.blockLimit size + spare) arguments m = .trapped s ∧
        s.memory = hazard.memory ∧
        f.TrapsAt (f.start arguments m) (2 * hazard.element + 2) bodyBlock
          (hazard.position width p) statement s ∧
        hazard.stuck.IsAt statement s ∧
        hazard.stuck.op.apply hazard.stuck.lhs hazard.stuck.rhs = none := by
  intro f arguments
  split
  next after h =>
    obtain ⟨s, hms, -, hs⟩ := call_of_run_eq_ok number (fun _ _ _ _ => accesses_true _ _) h
    exact ⟨s, hs spare, hms⟩
  next hazard h =>
    obtain ⟨statement, s, hms, -, ht, hat, -, hs⟩ :=
      call_of_run_eq_error number (fun _ _ _ _ => accesses_true _ _) h
    exact ⟨statement, s, hs spare, hms, ht, hat, apply_of_isAt hat ht.trap⟩

end Program

end FusedKernel
