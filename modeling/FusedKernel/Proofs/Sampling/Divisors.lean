import FusedKernel.Proofs.Assembly.Linking
import FusedKernel.Proofs.Sampling.Rejection

/-! Inputs without hazard. An operator that can trap does so on few right operands only, zero and
minus one, whatever stands on the left; drawn divisors are neither. So a fused pair has all its
values if the operands of its operators that can trap are drawn as divisors. -/
namespace FusedKernel

namespace Sampling

variable {r : Range} {ws : List Word} {n : Nat} {s s' : Keystream}

theorem isSafeDivisor_of_divisors (h : divisors n r s = .ok (ws, s')) :
    ∀ w ∈ ws, isSafeDivisor w := by
  obtain ⟨-, k, hk⟩ := exists_collects (divisors_eq_ok_iff.mp h).2
  rw [← hk.divisors]
  exact fun w hw => List.of_mem_filter hw

/-- Words that were drawn as safe divisors, from some range and at some place of a keystream. -/
def AreDivisors (ws : Vector Word n) : Prop :=
  ∃ r s s', divisors n r s = .ok (ws.toList, s')

theorem areDivisors_of_divisors {ws : Vector Word n} (r : Range) (s : Keystream)
    (h : (divisors n r s).toOption.map Prod.fst = some ws.toList) : AreDivisors ws := by
  cases hd : divisors n r s with
  | error e => simp [hd, Except.toOption] at h
  | ok result =>
    have hws : result.1 = ws.toList := by simpa [hd, Except.toOption] using h
    exact ⟨r, s, result.2, hws ▸ hd⟩

theorem AreDivisors.isSafeDivisor {ws : Vector Word n} (h : AreDivisors ws) {i : Nat}
    (hi : i < n) : isSafeDivisor ws[i] := by
  obtain ⟨r, s, s', h⟩ := h
  exact isSafeDivisor_of_divisors h _ (Vector.mem_toList_iff.mpr (Vector.getElem_mem hi))

end Sampling

open Sampling (AreDivisors isSafeDivisor)

namespace Operator

variable {op : Operator} {n : Nat}

theorem isSome_apply_of_isSafeDivisor (op : Operator) (x : Word) {y : Word}
    (hy : isSafeDivisor y) : (op.apply x y).isSome := by
  obtain ⟨hzero, hminus⟩ := Sampling.isSafeDivisor_iff.mp hy
  cases op with
  | plus | minus | multiply => rfl
  | divide =>
    rw [apply, if_neg fun h => h.elim hzero fun h => hminus h.2]
    rfl
  | modular =>
    rw [apply, if_neg hzero]
    rfl

theorem isSome_apply_of_canTrap (h : op.canTrap = false) (x y : Word) :
    (op.apply x y).isSome := by
  cases op with
  | plus | minus | multiply => rfl
  | divide | modular => cases h

/-- The recipe for right operands: any words, unless the operator can trap; then they are drawn as
divisors. -/
def Suits (op : Operator) (ys : Vector Word n) : Prop := op.canTrap → AreDivisors ys

theorem Suits.isSome_apply {ys : Vector Word n} (h : op.Suits ys) (x : Word) {i : Nat}
    (hi : i < n) : (op.apply x ys[i]).isSome := by
  cases ht : op.canTrap with
  | true => exact op.isSome_apply_of_isSafeDivisor x ((h ht).isSafeDivisor hi)
  | false => exact isSome_apply_of_canTrap ht x _

end Operator

namespace OperatorPair

variable {ops : OperatorPair} {n : Nat} {p q r : Vector Word n}

/-- On operands that suit, the second operator has a value whatever that of the first is. -/
theorem exists_apply_of_suits (hq : ops.first.Suits q) (hr : ops.second.Suits r) {i : Nat}
    (hi : i < n) :
    ∃ t, ops.first.apply p[i] q[i] = some t ∧ (ops.second.apply t r[i]).isSome := by
  obtain ⟨t, ht⟩ := Option.isSome_iff_exists.mp (hq.isSome_apply p[i] hi)
  exact ⟨t, ht, hr.isSome_apply t hi⟩

theorem isSome_apply_of_suits (hq : ops.first.Suits q) (hr : ops.second.Suits r) {i : Nat}
    (hi : i < n) : (ops.apply p[i] q[i] r[i]).isSome := by
  obtain ⟨t, ht, hsome⟩ := exists_apply_of_suits (p := p) hq hr hi
  rwa [OperatorPair.apply, ht]

/-- The fused values of three vectors, where they have them. -/
def values (ops : OperatorPair) (p q r : Vector Word n) : Vector Word n :=
  Vector.ofFn fun i => (ops.apply p[i] q[i] r[i]).getD 0

theorem reference_eq_values (hq : ops.first.Suits q) (hr : ops.second.Suits r) :
    ops.reference p.toArray q.toArray r.toArray = .ok (ops.values p q r).toArray := by
  refine reference_eq_ok (by simp) (by simp) (by simp) fun i hi => ?_
  have hn : i < n := by simpa using hi
  obtain ⟨value, hvalue⟩ := Option.isSome_iff_exists.mp (isSome_apply_of_suits (p := p) hq hr hn)
  simp [values, hvalue]

end OperatorPair

namespace Call

open Code

variable {f : Function} {ops : OperatorPair} {n : Nat} {p q r : Vector Word n}

/-- Four arrays of one length in memory, of which the inputs hold three vectors. -/
structure Holds (x : Slices) (m : Memory) (p q r : Vector Word n) : Prop where
  length : ∀ buffer, x.lengths.get buffer = n
  a : x.array m .a = p.toArray
  b : x.array m .b = q.toArray
  c : x.array m .c = r.toArray

theorem Holds.valueAt {x : Slices} {m : Memory} (h : Holds x m p q r) {i : Nat} (hi : i < n) :
    ops.valueAt (x.cell i) m = ops.apply p[i] q[i] r[i] := by
  have hread : ∀ (buffer : Buffer) (ws : Vector Word n), x.array m buffer = ws.toArray →
      m.read (x.cell i buffer) = ws[i] := fun buffer ws hws => by
    have hlt : i < (x.array m buffer).size := by rwa [Slices.size_array, h.length]
    rw [← Slices.getElem_array x m buffer hlt]
    simp only [hws, Vector.getElem_toArray]
  rw [OperatorPair.valueAt, hread .a p h.a, hread .b q h.b, hread .c r h.c]

/-- A function that computes a pair does not trap on operands that suit. Vectors whose length is no
size are refused. -/
theorem Computes.call_of_suits (hf : Computes f ops) (hq : ops.first.Suits q)
    (hr : ops.second.Suits r) {x : Slices} {m : Memory} (h : Holds x m p q r) :
    if n ≤ maxSize then
      ∃ after, x.call f m = .ok (.returned after) ∧
        x.array after .out = (ops.values p q r).toArray
    else x.call f m = .error (.sizeOverflow n) := by
  have hsize : x.size = n := h.length .out
  split
  next hn =>
    have haccepted : x.Accepted :=
      ⟨hsize ▸ hn, fun buffer _ => Nat.le_of_eq (hsize.trans (h.length buffer).symm)⟩
    obtain ⟨after, hcall, href, -⟩ := hf.returns x m haccepted fun i hi => by
      rw [h.valueAt (hsize ▸ hi)]
      exact OperatorPair.isSome_apply_of_suits hq hr _
    have hwhole : p.toArray.extract 0 x.size = p.toArray := by simp [hsize]
    rw [h.a, h.b, h.c, hwhole, OperatorPair.reference_eq_values hq hr] at href
    exact ⟨after, hcall, (Except.ok.inj href).symm⟩
  next hn =>
    have hout : x.lengths.out = n := hsize
    rw [Slices.call, checkedAt, checkLengths, hout, if_pos (Nat.lt_of_not_le hn)]

end Call

namespace Assembly

/-- Every kernel that is found computes the operators of its handle. -/
theorem Sound.computes_of_resolve_link {u : Assembly} (hu : u.Sound) {name : String} {k : Kernel}
    (hk : u.link.1.resolve name = .ok k) : Call.Computes k.code k.handle.ops := by
  rw [hu.resolve_link_eq] at hk
  cases hh : u.handle? name with
  | none => simp [hh] at hk
  | some h =>
    obtain rfl : u.linked h = k := by simpa [hh] using hk
    exact computes_linked u h

end Assembly

open Call (Slices Holds)

/-- An operator that cannot trap has a value on all words. Beyond that, if the right operands of
each operator that can trap are drawn as divisors, both operators of a pair have their values at
every element, whatever the left operands are; so the reference has its result, and no kernel that
was ever compiled for the pair traps: a call on the vectors, wherever they lie in memory, puts the
same result into the output, if the length of the vectors is a size at all. -/
theorem OperatorPair.defined_of_suits {ops : OperatorPair} {n : Nat} {p q r : Vector Word n}
    (hq : ops.first.Suits q) (hr : ops.second.Suits r) :
    (∀ op : Operator, op.canTrap = false → ∀ x y, (op.apply x y).isSome) ∧
    (∀ (i : Nat) (hi : i < n),
      ∃ t, ops.first.apply p[i] q[i] = some t ∧ (ops.second.apply t r[i]).isSome) ∧
    ∃ values : Vector Word n,
      ops.reference p.toArray q.toArray r.toArray = .ok values.toArray ∧
      ∀ id settings names u₀, Assembly.create id settings names = .ok u₀ →
        ∀ (requests : List Assembly.Request) name k,
          (u₀.performAll requests).1.link.1.resolve name = .ok k → k.handle.ops = ops →
          ∀ (x : Slices) (m : Code.Memory), Holds x m p q r →
            if n ≤ Call.maxSize then
              ∃ after, x.call k.code m = .ok (.returned after) ∧
                x.array after .out = values.toArray
            else x.call k.code m = .error (.sizeOverflow n) := by
  refine ⟨fun op => Operator.isSome_apply_of_canTrap, fun i hi => exists_apply_of_suits hq hr hi,
    ops.values p q r, reference_eq_values hq hr, ?_⟩
  rintro id settings names u₀ h₀ requests name k hk rfl x m hx
  obtain rfl := Assembly.create_eq_ok h₀
  have hu := ((Assembly.sound_empty id settings names).performAll requests).sound
  have hcomputes := hu.computes_of_resolve_link hk
  exact hcomputes.call_of_suits hq hr hx

/-- The least word divided by minus three, and the remainder of the quotient by a drawn divisor. -/
theorem OperatorPair.defined_of_suits_least :
    let ops : OperatorPair := ⟨.divide, .modular⟩
    let p : Vector Word 2 := #v[BitVec.intMin 32, 7]
    let q : Vector Word 2 := #v[-3, 1]
    let r : Vector Word 2 := #v[-2, -2]
    ops.first.Suits q ∧ ops.second.Suits r ∧
    (∀ (i : Nat) (hi : i < 2),
      ∃ t, ops.first.apply p[i] q[i] = some t ∧ (ops.second.apply t r[i]).isSome) ∧
    ∃ values : Vector Word 2,
      ops.reference p.toArray q.toArray r.toArray = .ok values.toArray ∧ values = #v[0, 1] := by
  intro ops p q r
  have hq : ops.first.Suits q := fun _ => Sampling.areDivisors_of_divisors ⟨-3, 3⟩ (.ofSeed 3) (by
    decide +kernel)
  have hr : ops.second.Suits r := fun _ => Sampling.areDivisors_of_divisors ⟨-3, 3⟩ (.ofSeed 5) (by
    decide +kernel)
  obtain ⟨-, hvalues, values, href, -⟩ := OperatorPair.defined_of_suits (p := p) hq hr
  have hall : ops.reference p.toArray q.toArray r.toArray = .ok #[0, 1] := by decide +kernel
  rw [hall] at href
  exact ⟨hq, hr, hvalues, values, hall.trans href, Vector.toArray_inj.mp (Except.ok.inj href).symm⟩

end FusedKernel
