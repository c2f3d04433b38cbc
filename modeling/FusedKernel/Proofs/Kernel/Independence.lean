import Mathlib.Logic.Equiv.Basic
import FusedKernel.Proofs.Kernel.Locality

/-! The elements of a program do not notice each other. Where the buffers share no cells, the four
cells of an index are read and written for that index only, so what the program makes of them is a
function of what they were. Hence elements in another order give results in that order. -/
namespace FusedKernel

open Code Emission

namespace Program

variable {p : Program} {m : Memory}

/-! ### One element -/

/-- The cells of an index after some assignments, unless an operator lacks a value. -/
def assignElement : List Assignment → (Buffer → Word) → Option (Buffer → Word)
  | [], element => some element
  | a :: rest, element =>
    match a.value.eval element with
    | .error _ => none
    | .ok w => assignElement rest (Function.update element a.target w)

/-- The four cells at some addresses. -/
def elementAt (m : Memory) (address : Buffer → Address) (buffer : Buffer) : Word :=
  m.read (address buffer)

theorem elementAt_write {address : Buffer → Address} (ha : Function.Injective address)
    (m : Memory) (buffer : Buffer) (w : Word) :
    elementAt (m.write (address buffer) w) address =
      Function.update (elementAt m address) buffer w := by
  funext other
  by_cases h : other = buffer
  · rw [h, elementAt, Memory.read_write_self, Function.update_self]
  · rw [elementAt, m.read_write_of_ne w fun he => h (ha he).symm, Function.update_of_ne h]
    rfl

/-- Assignments make of the four cells what they make of their values. -/
theorem assignElement_eq {address : Buffer → Address} (ha : Function.Injective address)
    (i position : Nat) (as : List Assignment) (m : Memory) :
    assignElement as (elementAt m address) =
      (assignAll address i position as m).toOption.map (elementAt · address) := by
  induction as generalizing position m with
  | nil => rfl
  | cons a rest ih =>
    have heval : (a.value.eval fun buffer => m.read (address buffer)) =
      a.value.eval (elementAt m address) := rfl
    rw [assignAll, assignElement, heval]
    cases a.value.eval (elementAt m address) with
    | error stuck => rfl
    | ok w =>
      simp only
      rw [← elementAt_write ha m a.target w]
      exact ih (position + 1) _

/-! ### All elements -/

section

/-- No two of the first elements of the four buffers are the same cell. -/
def Apart (place : Nat → Buffer → Address) (n : Nat) : Prop :=
  ∀ i < n, ∀ j < n, ∀ buffer other, place i buffer = place j other → i = j ∧ buffer = other

variable {place : Nat → Buffer → Address} {i j n : Nat} {m' after : Memory}

theorem Apart.injective (h : Apart place n) (hi : i < n) : Function.Injective (place i) :=
  fun _ _ he => (h i hi i hi _ _ he).2

theorem Apart.ne (h : Apart place n) (hi : i < n) (hj : j < n) (hij : i ≠ j)
    (buffer other : Buffer) : place i buffer ≠ place j other :=
  fun he => hij (h i hi j hj _ _ he).1

variable {space : Nat} {base : Buffer → Address}

/-- The assignments of an index leave the cells of others as they are. -/
theorem elementAt_of_assignAll (h : Apart (elementAddress space base) n) (hi : i < n) (hj : j < n)
    (hij : i ≠ j)
    (hm : assignAll (elementAddress space base i) i 0 p.assignments m = .ok m') :
    elementAt m' (elementAddress space base j) = elementAt m (elementAddress space base j) :=
  funext fun buffer => assignAll_frame hm fun a _ => h.ne hi hj hij a.target buffer

/-- The loop does the elements up to the first that cannot be done. Whether an element can is seen
on the memory before the loop. -/
theorem elementsFrom_spec (h : Apart (elementAddress space base) n) {count : Nat}
    (hn : i + count ≤ n) (m : Memory) :
    match p.elementsFrom space base i count m with
    | .ok after => ∀ k, i ≤ k → k < i + count →
        assignElement p.assignments (elementAt m (elementAddress space base k)) =
          some (elementAt after (elementAddress space base k))
    | .error _ => ∃ k, i ≤ k ∧ k < i + count ∧
        assignElement p.assignments (elementAt m (elementAddress space base k)) = none := by
  induction count generalizing i m with
  | zero => exact fun k hik hki => absurd hki (Nat.not_lt.mpr hik)
  | succ count ih =>
    have hi : i < n := by omega
    have hfirst := assignElement_eq (h.injective hi) i 0 p.assignments m
    rw [elementsFrom]
    cases hw : assignAll (elementAddress space base i) i 0 p.assignments m with
    | error hazard =>
      rw [hw] at hfirst
      exact ⟨i, Nat.le_refl i, by omega, hfirst⟩
    | ok m' =>
      rw [hw] at hfirst
      have hrest := ih (i := i + 1) (by omega) m'
      have hlater : ∀ k, i < k → k < n → elementAt m' (elementAddress space base k) =
          elementAt m (elementAddress space base k) := fun k hik hk =>
        elementAt_of_assignAll h hi hk (Nat.ne_of_lt hik) hw
      simp only
      split <;> simp only [*] at hrest
      next after hok =>
        intro k hik hk
        obtain rfl | hlt := Nat.eq_or_lt_of_le hik
        · -- later elements leave this one alone
          have hsame : elementAt after (elementAddress space base i) =
              elementAt m' (elementAddress space base i) := funext fun buffer =>
            elementsFrom_frame hok fun j hj hlt a _ =>
              h.ne (by omega) hi (by omega) a.target buffer
          rw [hsame]
          exact hfirst
        · rw [← hlater k hlt (by omega)]
          exact hrest k hlt (by omega)
      next hazard _ =>
        obtain ⟨k, hik, hk, hnone⟩ := hrest
        exact ⟨k, by omega, by omega, by rwa [hlater k (by omega) (by omega)] at hnone⟩

end

/-! ### Calls -/

section
variable {width : AddressWidth} {base : Buffer → BitVec width.bits} {n : Nat}

/-- How the elements below `n` end on some memory. -/
def ending (p : Program) (base : Buffer → BitVec width.bits) (n : Nat) (m : Memory) :
    CallResult Memory :=
  endOf (p.elementsFrom width.space (fun buffer => (base buffer).toNat) 0 n m)

/-- Either each element can be done, and has become what the program makes of it, or there is one
that cannot. -/
theorem ending_cases (h : Apart (cell base) n) (m : Memory) :
    (∃ after, p.ending base n m = .returned after ∧
      ∀ i < n, assignElement p.assignments (elementAt m (cell base i)) =
        some (elementAt after (cell base i))) ∨
    (∃ after, p.ending base n m = .trapped after) ∧
      ∃ i < n, assignElement p.assignments (elementAt m (cell base i)) = none := by
  have hloop := elementsFrom_spec (p := p) h (Nat.le_of_eq (Nat.zero_add n)) m
  split at hloop
  next after hok =>
    exact .inl ⟨after, by rw [ending, hok]; rfl, fun i hi => hloop i (Nat.zero_le i) (by omega)⟩
  next hazard herror =>
    obtain ⟨i, -, hi, hnone⟩ := hloop
    exact .inr ⟨⟨hazard.memory, by rw [ending, herror]; rfl⟩, i, by omega, hnone⟩

variable {m m' after after' : Memory}

theorem assignElement_of_ending (h : Apart (cell base) n) (hr : p.ending base n m = .returned after)
    {i : Nat} (hi : i < n) :
    assignElement p.assignments (elementAt m (cell base i)) =
      some (elementAt after (cell base i)) := by
  obtain ⟨x, hx, hdone⟩ | ⟨⟨x, hx⟩, -⟩ := ending_cases (p := p) h m
  · cases hr.symm.trans hx
    exact hdone i hi
  · cases hr.symm.trans hx

/-- What the cells of an index become depends on nothing but what they were. -/
theorem elementAt_of_ending (h : Apart (cell base) n) (hr : p.ending base n m = .returned after)
    (hr' : p.ending base n m' = .returned after') {i : Nat} (hi : i < n)
    (hm : elementAt m (cell base i) = elementAt m' (cell base i)) :
    elementAt after (cell base i) = elementAt after' (cell base i) := by
  have hdone := assignElement_of_ending h hr hi
  rw [hm, assignElement_of_ending h hr' hi] at hdone
  exact (Option.some.inj hdone).symm

/-- Elements in another order end in that order, or there is one that cannot be done in both. -/
theorem ending_permuted (h : Apart (cell base) n) (σ : Equiv.Perm (Fin n))
    (hm : ∀ i : Fin n, elementAt m' (cell base i) = elementAt m (cell base (σ i))) :
    (∃ after after', p.ending base n m = .returned after ∧ p.ending base n m' = .returned after' ∧
      ∀ i : Fin n, elementAt after' (cell base i) = elementAt after (cell base (σ i))) ∨
    ∃ after after', p.ending base n m = .trapped after ∧ p.ending base n m' = .trapped after' := by
  obtain ⟨after, hr, hdone⟩ | ⟨⟨after, ht⟩, i, hi, hnone⟩ := ending_cases (p := p) h m <;>
  obtain ⟨after', hr', hdone'⟩ | ⟨⟨after', ht'⟩, j, hj, hnone'⟩ := ending_cases (p := p) h m'
  · refine .inl ⟨after, after', hr, hr', fun i => ?_⟩
    have h := hdone (σ i) (σ i).isLt
    rw [← hm, hdone' i i.isLt] at h
    exact Option.some.inj h
  · have h := hdone (σ ⟨j, hj⟩) (σ ⟨j, hj⟩).isLt
    rw [← hm, hnone'] at h
    cases h
  · have h := hdone' (σ.symm ⟨i, hi⟩) (σ.symm ⟨i, hi⟩).isLt
    rw [hm, Equiv.apply_symm_apply, hnone] at h
    cases h
  · exact .inr ⟨after, after', ht, ht'⟩

/-- Buffers apart from each other: no two regions of `n` cells overlap, and none wraps around. -/
theorem apart_of_regions (hfit : ∀ buffer, (base buffer).toNat + cellBytes * n ≤ width.space)
    (hapart : ∀ buffer other, buffer ≠ other →
      (base buffer).toNat + cellBytes * n ≤ (base other).toNat ∨
        (base other).toNat + cellBytes * n ≤ (base buffer).toNat) : Apart (cell base) n := by
  have hcell : ∀ i < n, ∀ buffer,
      cell base i buffer = (base buffer).toNat + 4 * i := fun i hi buffer => by
    have hf := hfit buffer
    unfold cellBytes at hf
    have hlt : (base buffer).toNat + 4 * i < width.space := by omega
    exact Nat.mod_eq_of_lt hlt
  intro i hi j hj buffer other he
  have he : (base buffer).toNat + 4 * i = (base other).toNat + 4 * j := by
    rw [← hcell i hi, ← hcell j hj, he]
  by_cases hb : buffer = other
  · subst hb
    exact ⟨by omega, rfl⟩
  · have h := hapart buffer other hb
    unfold cellBytes at h
    omega

/-- Where the buffers share no cells among the first `n` of each, the elements do not notice each
other. If they are brought into another order, either the call returns for both orders, with the
results of one in the order of the other, or it traps for both. And what four cells of one index
become depends on nothing but what these four were. -/
theorem call_permuted (p : Program) (number : Nat) (hn : n ≤ Call.maxSize)
    (base : Buffer → BitVec width.bits) (hapart : Apart (cell base) n) (spare : Nat) :
    let call := fun m => ((p.toFunction width number).call
      (Function.blockLimit (BitVec.ofNat 32 n) + spare)
      (Function.callArguments width (BitVec.ofNat 32 n) base) m).memory
    (∀ (σ : Equiv.Perm (Fin n)) (m m' : Memory),
      (∀ (i : Fin n) buffer, m'.read (cell base i buffer) = m.read (cell base (σ i) buffer)) →
      (∃ after after', call m = .returned after ∧ call m' = .returned after' ∧
        ∀ (i : Fin n) buffer,
          after'.read (cell base i buffer) = after.read (cell base (σ i) buffer)) ∨
      ∃ after after', call m = .trapped after ∧ call m' = .trapped after') ∧
    ∀ m m' after after', call m = .returned after → call m' = .returned after' →
      ∀ i < n, (∀ buffer, m.read (cell base i buffer) = m'.read (cell base i buffer)) →
        ∀ buffer, after.read (cell base i buffer) = after'.read (cell base i buffer) := by
  intro call
  have hcall : call = p.ending base n := funext (p.memory_call_ofNat number hn base spare)
  rw [hcall]
  refine ⟨fun σ m m' hm => ?_, fun m m' after after' hr hr' i hi hm => ?_⟩
  · obtain ⟨after, after', hr, hr', hdone⟩ | htrapped :=
      ending_permuted (p := p) hapart σ fun i => funext (hm i)
    · exact .inl ⟨after, after', hr, hr', fun i => congrFun (hdone i)⟩
    · exact .inr htrapped
  · exact congrFun (elementAt_of_ending hapart hr hr' hi (funext hm))

/-- Two elements are exchanged, of which the first input is changed before it is read again. -/
theorem call_permuted_exchanged :
    let p : Program := ⟨[⟨.a, .binary .plus (.load .a) (.load .b)⟩],
      .binary .multiply (.load .a) (.load .c)⟩
    let base : Buffer → BitVec AddressWidth.bits32.bits := fun buffer =>
      BitVec.ofNat 32 (0x1000 * (buffer.index + 1))
    let m := Memory.ofContents fun address => BitVec.ofNat 32 (address % 8)
    let m' := Memory.ofContents fun address => BitVec.ofNat 32 ((address + 4) % 8)
    let call := fun m => ((p.toFunction .bits32 0).call
      (Function.blockLimit (BitVec.ofNat 32 2) + 0)
      (Function.callArguments .bits32 (BitVec.ofNat 32 2) base) m).memory
    2 ≤ Call.maxSize ∧ Apart (cell base) 2 ∧
    ∃ after after', call m = .returned after ∧ call m' = .returned after' ∧
      after'.read 0x4000 = after.read 0x4004 ∧ after'.read 0x4004 = after.read 0x4000 := by
  intro p base m m' call
  have hmax : 2 ≤ Call.maxSize := by decide
  have hapart : Apart (cell base) 2 := apart_of_regions
    (fun buffer => by cases buffer <;> decide)
    (fun buffer other h => by cases buffer <;> cases other <;> first | exact absurd rfl h | decide)
  let σ : Equiv.Perm (Fin 2) := Equiv.swap 0 1
  have hm : ∀ (i : Fin 2) buffer,
      m'.read (cell base i buffer) = m.read (cell base (σ i) buffer) := by
    intro i buffer
    simp only [m, m', Memory.read_ofContents]
    cases buffer <;> revert i <;> decide
  obtain ⟨after, after', hr, hr', hswap⟩ | ⟨after, -, ht, -⟩ :=
    (call_permuted p 0 hmax base hapart 0).1 σ m m' hm
  · exact ⟨hmax, hapart, after, after', hr, hr', hswap 0 .out, hswap 1 .out⟩
  · -- no operator of the program lacks a value
    have hloop := (p.memory_call_ofNat 0 hmax base 0 m).symm.trans ht
    obtain ⟨_, hr, -⟩ | ⟨-, i, -, hnone⟩ := ending_cases (p := p) hapart m
    · cases hr.symm.trans hloop
    · simp [assignElement, assignments, Expr.eval, p] at hnone

end

end Program

end FusedKernel
