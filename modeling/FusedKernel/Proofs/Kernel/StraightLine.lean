import Mathlib.Tactic.Common
import FusedKernel.Proofs.Code.Execution
import FusedKernel.Proofs.Kernel.Layout

/-! The straight-line code of expressions and assignments does what evaluation does. It leaves alone
the values defined before it, accesses only the elements it is about, and stops at the operator at
which evaluation is stuck. -/
namespace FusedKernel

open Code

theorem Operator.eval_instruction (op : Operator) (x y : Word) :
    op.instruction.eval x y =
      match op.apply x y with
      | some w => .ok w
      | none => .error .trap := by
  cases op with
  | plus | minus | multiply => rfl
  | divide | modular =>
    simp only [instruction, BinaryOp.eval, apply]
    split <;> rfl

/-- What code leaves alone that defines values from a number on: the values below that number. The
accesses that it adds have a property. -/
structure Code.State.Keeps (P : Access → Prop) (bound : Nat) (s t : State) : Prop where
  value : ∀ x < bound, t.value x = s.value x
  accesses : (∀ a ∈ s.accesses, P a) → ∀ a ∈ t.accesses, P a

namespace Code

variable {P : Access → Prop} {s t u : State}

theorem State.Keeps.refl (s : State) (bound : Nat) : s.Keeps P bound s :=
  ⟨fun _ _ => rfl, fun h => h⟩

theorem State.Keeps.trans {m n : Nat} (h : s.Keeps P m t) (h' : t.Keeps P n u) (hmn : m ≤ n) :
    s.Keeps P m u :=
  ⟨fun x hx => (h'.value x (by omega)).trans (h.value x hx), fun hs => h'.accesses (h.accesses hs)⟩

/-- A definition binds its value and changes nothing else. -/
theorem Statement.step_define (x : Nat) (value : Definition) {v : Scalar}
    (h : value.eval s = .ok v) (ha : ∀ a ∈ value.access? s, P a) :
    ∃ t, (define x value).step s = .ok t ∧ s.Keeps P x t ∧ t.memory = s.memory ∧
      t.value x = .ok v := by
  refine ⟨{ s.bind x v with accesses := (value.access? s).toList ++ s.accesses }, ?_, ⟨?_, ?_⟩,
    rfl, ?_⟩
  · simp only [step, h]
    rfl
  · intro y hy
    exact (s.value_bind x y v).trans (if_neg (Nat.ne_of_gt hy))
  · intro hs a hmem
    rcases List.mem_append.mp hmem with hnew | hold
    · exact ha a (Option.mem_toList.mp hnew)
    · exact hs a hold
  · exact (s.value_bind x x v).trans (if_pos rfl)

theorem Statement.step_store {x y : Nat} {w : Word} {p : Address}
    (hx : s.value x = .ok (.word w)) (hy : s.address y = .ok p) (hp : P (.store p)) (bound : Nat) :
    ∃ t, (store .i32 x y).step s = .ok t ∧ s.Keeps P bound t ∧ t.memory = s.memory.write p w := by
  refine ⟨{ s with memory := s.memory.write p w, accesses := .store p :: s.accesses }, ?_,
    ⟨fun _ _ => rfl, ?_⟩, rfl⟩
  · simp only [step, hx, hy]
    rfl
  · intro hs a hmem
    rcases List.mem_cons.mp hmem with rfl | hold
    · exact hp
    · exact hs a hold

theorem AddressWidth.combine_pointer (width : AddressWidth) (p q : BitVec width.bits) :
    (width.pointer p).combine BinaryOp.iadd.eval (width.pointer q) =
      .ok (width.pointer (p + q)) := by
  cases width <;> rfl

theorem State.address_of_value {x : Nat} {width : AddressWidth} {p : BitVec width.bits}
    (h : s.value x = .ok (width.pointer p)) : s.address x = .ok p.toNat := by
  cases width <;> simp only [State.address, h, AddressWidth.pointer] <;> rfl

end Code

/-- The buffers that an expression loads, in order. -/
def Expr.buffers : Expr → List Buffer
  | load buffer => [buffer]
  | binary _ lhs rhs => lhs.buffers ++ rhs.buffers

/-- A statement is that of an operator without value, and its operands have the values at which
evaluation is stuck. -/
structure Expr.Stuck.IsAt (stuck : Expr.Stuck) (statement : Statement) (t : State) : Prop where
  operands : ∃ result x y, statement = .define result (.binary stuck.op.instruction .i32 x y) ∧
    t.value x = .ok (.word stuck.lhs) ∧ t.value y = .ok (.word stuck.rhs)

theorem Expr.eval_binary_eq_ok {op : Operator} {lhs rhs : Expr} {element : Buffer → Word}
    {w : Word} :
    (binary op lhs rhs).eval element = .ok w ↔
      ∃ x y, lhs.eval element = .ok x ∧ rhs.eval element = .ok y ∧ op.apply x y = some w := by
  simp only [eval]
  cases lhs.eval element with
  | error stuck => simp
  | ok x =>
    cases rhs.eval element with
    | error stuck => simp
    | ok y => cases hop : op.apply x y <;> simp [hop]

/-- Evaluation is stuck in the left operand, in the right one, or at the operator itself. -/
theorem Expr.eval_binary_eq_error {op : Operator} {lhs rhs : Expr} {element : Buffer → Word}
    {stuck : Stuck} (h : (binary op lhs rhs).eval element = .error stuck) :
    (∃ inner, lhs.eval element = .error inner ∧ stuck = inner.under .left) ∨
    (∃ x inner, lhs.eval element = .ok x ∧ rhs.eval element = .error inner ∧
      stuck = inner.under .right) ∨
    ∃ x y, lhs.eval element = .ok x ∧ rhs.eval element = .ok y ∧ op.apply x y = none ∧
      stuck = ⟨[], op, x, y⟩ := by
  simp only [eval] at h
  cases hl : lhs.eval element with
  | error inner =>
    rw [hl] at h
    exact .inl ⟨inner, rfl, (Except.error.inj h).symm⟩
  | ok x =>
    cases hr : rhs.eval element with
    | error inner =>
      rw [hl, hr] at h
      exact .inr (.inl ⟨x, inner, rfl, rfl, (Except.error.inj h).symm⟩)
    | ok y =>
      rw [hl, hr] at h
      cases hop : op.apply x y with
      | some w => simp [hop] at h
      | none =>
        simp only [hop] at h
        exact .inr (.inr ⟨x, y, rfl, rfl, hop, (Except.error.inj h).symm⟩)

theorem Expr.Stuck.IsAt.under {stuck : Expr.Stuck} {statement : Statement} {t : State}
    (h : stuck.IsAt statement t) (side : Expr.Side) : (stuck.under side).IsAt statement t :=
  ⟨h.operands⟩

namespace Emission

variable {P : Access → Prop} {s t : State} {e : Element} {address : Buffer → Address} {first : Nat}

/-- In a state, the bases and the byte offset of an element add up to given addresses. -/
def Element.Reaches (e : Element) (address : Buffer → Address) (s : State) : Prop :=
  ∀ buffer, ∃ p q : BitVec e.width.bits, s.value (base buffer) = .ok (e.width.pointer p) ∧
    s.value e.offset = .ok (e.width.pointer q) ∧ (p + q).toNat = address buffer

/-- The bases and the byte offset are defined before a value. -/
structure Element.Before (e : Element) (first : Nat) : Prop where
  bases : 4 < first
  offset : e.offset < first

theorem Element.Before.base_lt (h : e.Before first) (buffer : Buffer) : base buffer < first := by
  have hb : base buffer ≤ 4 := by cases buffer <;> decide
  exact Nat.lt_of_le_of_lt hb h.bases

theorem Element.Before.mono (h : e.Before first) {n : Nat} (hn : first ≤ n) : e.Before n :=
  ⟨Nat.lt_of_lt_of_le h.bases hn, Nat.lt_of_lt_of_le h.offset hn⟩

theorem Element.Reaches.keeps (h : e.Reaches address s) (he : e.Before first)
    (hk : s.Keeps P first t) : e.Reaches address t := by
  intro buffer
  obtain ⟨p, q, hp, hq, hpq⟩ := h buffer
  exact ⟨p, q, by rw [hk.value _ (he.base_lt buffer), hp], by rw [hk.value _ he.offset, hq], hpq⟩

/-- The address of an element is computed by one addition. -/
theorem step_address (hs : e.Reaches address s) (x : Nat) (buffer : Buffer) :
    ∃ t, (Statement.define x (.binary .iadd e.width.type (base buffer) e.offset)).step s = .ok t ∧
      s.Keeps P x t ∧ t.memory = s.memory ∧ t.address x = .ok (address buffer) := by
  obtain ⟨p, q, hp, hq, hpq⟩ := hs buffer
  have he : (Definition.binary .iadd e.width.type (base buffer) e.offset).eval s =
      .ok (e.width.pointer (p + q)) := by
    rw [← AddressWidth.combine_pointer]
    simp only [Definition.eval, hp, hq]
    rfl
  obtain ⟨t, ht, hk, hm, hv⟩ :=
    Statement.step_define (P := P) x _ he (by simp [Definition.access?])
  exact ⟨t, ht, hk, hm, by rw [State.address_of_value hv, hpq]⟩

theorem step_load (x : Nat) {y : Nat} {p : Address} (h : s.address y = .ok p) (hp : P (.load p)) :
    ∃ t, (Statement.define x (.load .i32 y)).step s = .ok t ∧ s.Keeps P x t ∧
      t.memory = s.memory ∧ t.value x = .ok (.word (s.memory.read p)) := by
  apply Statement.step_define
  · simp only [Definition.eval, h]
    rfl
  · simpa [Definition.access?, h, Except.toOption] using hp

/-- The instruction of an operator defines its value, or traps where it has none. -/
theorem eval_operator {op : Operator} {x y : Nat} {v w : Word} (hx : s.value x = .ok (.word v))
    (hy : s.value y = .ok (.word w)) :
    (Definition.binary op.instruction .i32 x y).eval s =
      match op.apply v w with
      | some z => .ok (.word z)
      | none => .error .trap := by
  have h : (Definition.binary op.instruction .i32 x y).eval s =
      (op.instruction.eval v w).map .word := by
    simp only [Definition.eval, hx, hy]
    rfl
  rw [h, op.eval_instruction]
  cases op.apply v w <;> rfl

theorem trap_operator {op : Operator} {x y : Nat} {v w : Word} (hx : s.value x = .ok (.word v))
    (hy : s.value y = .ok (.word w)) (h : op.apply v w = none) (result : Nat) :
    (Statement.define result (.binary op.instruction .i32 x y)).step s = .error .trap := by
  simp only [Statement.step, eval_operator hx hy, h]
  rfl

theorem apply_of_isAt {stuck : Expr.Stuck} {statement : Statement} (h : stuck.IsAt statement t)
    (ht : statement.step t = .error .trap) : stuck.op.apply stuck.lhs stuck.rhs = none := by
  obtain ⟨result, x, y, rfl, hx, hy⟩ := h.operands
  cases hop : stuck.op.apply stuck.lhs stuck.rhs with
  | none => rfl
  | some w =>
    simp only [Statement.step, eval_operator hx hy, hop] at ht
    cases ht

/-! ### Expressions -/

/-- The code of an expression leaves its value under its number. -/
theorem runBody_exprCode (x : Expr) (hb : e.Before first)
    (hP : ∀ buffer ∈ x.buffers, P (.load (address buffer))) (hs : e.Reaches address s) {w : Word}
    (hw : (x.eval fun buffer => s.memory.read (address buffer)) = .ok w) :
    ∃ t, runBody s (exprCode e first x) = .ok t ∧ s.Keeps P first t ∧ t.memory = s.memory ∧
      t.value (x.result first) = .ok (.word w) := by
  induction x generalizing first s w with
  | load buffer =>
    obtain ⟨t, ht, hkt, hmt, hat⟩ := step_address (P := P) hs first buffer
    obtain ⟨u, hu, hku, hmu, hvu⟩ :=
      step_load (first + 1) hat (hP buffer (by simp [Expr.buffers]))
    refine ⟨u, ?_, hkt.trans hku (by omega), hmu.trans hmt, ?_⟩
    · rw [exprCode, runBody_cons_of_ok ht, runBody_cons_of_ok hu]
      rfl
    · have hw' : s.memory.read (address buffer) = w := Except.ok.inj hw
      rw [Expr.result, hvu, hmt, hw']
  | binary op lhs rhs ihl ihr =>
    obtain ⟨x, y, hl, hr, hop⟩ := Expr.eval_binary_eq_ok.mp hw
    simp only [Expr.buffers, List.mem_append] at hP
    obtain ⟨t, ht, hkt, hmt, hvt⟩ := ihl hb (fun buffer h => hP buffer (.inl h)) hs hl
    obtain ⟨u, hu, hku, hmu, hvu⟩ := ihr (hb.mono (Nat.le_add_right first lhs.statements))
      (fun buffer h => hP buffer (.inr h)) (hs.keeps hb hkt) (by rw [hmt]; exact hr)
    have hvl : u.value (lhs.result first) = .ok (.word x) := by
      rw [hku.value _ (lhs.result_lt first), hvt]
    obtain ⟨v, hv, hkv, hmv, hvv⟩ := Statement.step_define (P := P)
      (first + (lhs.statements + rhs.statements))
      (.binary op.instruction .i32 (lhs.result first) (rhs.result (first + lhs.statements)))
      (by rw [eval_operator hvl hvu, hop]) (by simp [Definition.access?])
    refine ⟨v, ?_, (hkt.trans hku (by omega)).trans hkv (by omega), (hmv.trans hmu).trans hmt, hvv⟩
    rw [exprCode, List.append_assoc, runBody_append_of_ok ht, runBody_append_of_ok hu,
      runBody_cons_of_ok hv]
    rfl

/-- The code of an expression stops at the operator at which evaluation is stuck. -/
theorem stopsAt_exprCode (x : Expr) (hb : e.Before first)
    (hP : ∀ buffer ∈ x.buffers, P (.load (address buffer))) (hs : e.Reaches address s)
    {stuck : Expr.Stuck}
    (hw : (x.eval fun buffer => s.memory.read (address buffer)) = .error stuck) :
    ∃ statement t, StopsAt s (exprCode e first x) (x.position stuck.path) statement t ∧
      stuck.IsAt statement t ∧ s.Keeps P first t ∧ t.memory = s.memory := by
  induction x generalizing first s stuck with
  | load buffer => cases hw
  | binary op lhs rhs ihl ihr =>
    simp only [Expr.buffers, List.mem_append] at hP
    have hPl : ∀ buffer ∈ lhs.buffers, P (.load (address buffer)) :=
      fun buffer h => hP buffer (.inl h)
    have hPr : ∀ buffer ∈ rhs.buffers, P (.load (address buffer)) :=
      fun buffer h => hP buffer (.inr h)
    have hb' : e.Before (first + lhs.statements) := hb.mono (Nat.le_add_right _ _)
    rw [exprCode, List.append_assoc]
    obtain ⟨inner, hl, rfl⟩ | ⟨x, inner, hl, hr, rfl⟩ | ⟨x, y, hl, hr, hop, rfl⟩ :=
      Expr.eval_binary_eq_error hw
    · obtain ⟨statement, t, ht, hat, hkt, hmt⟩ := ihl hb hPl hs hl
      exact ⟨statement, t, ht.append _, hat.under .left, hkt, hmt⟩
    · obtain ⟨t, ht, hkt, hmt, -⟩ := runBody_exprCode lhs hb hPl hs hl
      obtain ⟨statement, u, hu, hau, hku, hmu⟩ :=
        ihr hb' hPr (hs.keeps hb hkt) (by rw [hmt]; exact hr)
      refine ⟨statement, u, ?_, hau.under .right, hkt.trans hku (by omega), hmu.trans hmt⟩
      have h := fun rest => (hu.append rest).after ht
      simp only [length_exprCode] at h
      exact h _
    · obtain ⟨t, ht, hkt, hmt, hvt⟩ := runBody_exprCode lhs hb hPl hs hl
      obtain ⟨u, hu, hku, hmu, hvu⟩ :=
        runBody_exprCode rhs hb' hPr (hs.keeps hb hkt) (by rw [hmt]; exact hr)
      have hvl : u.value (lhs.result first) = .ok (.word x) := by
        rw [hku.value _ (lhs.result_lt first), hvt]
      have htrap := trap_operator hvl hvu hop (first + (lhs.statements + rhs.statements))
      have h := ((StopsAt.head htrap []).after hu).after ht
      simp only [length_exprCode, Nat.add_zero] at h
      exact ⟨_, u, h, ⟨_, _, _, rfl, hvl, hvu⟩, hkt.trans hku (by omega), hmu.trans hmt⟩

/-! ### Assignments -/

/-- An assignment whose accesses all have a property. -/
structure Accesses (P : Access → Prop) (address : Buffer → Address) (a : Assignment) : Prop where
  load : ∀ buffer ∈ a.value.buffers, P (.load (address buffer))
  store : P (.store (address a.target))

theorem accesses_true (address : Buffer → Address) (a : Assignment) :
    Accesses (fun _ => True) address a := ⟨fun _ _ => trivial, trivial⟩

/-- The code of an assignment writes its value. -/
theorem runBody_assignmentCode (a : Assignment) (hb : e.Before first) (hP : Accesses P address a)
    (hs : e.Reaches address s) {w : Word}
    (hw : (a.value.eval fun buffer => s.memory.read (address buffer)) = .ok w) :
    ∃ t, runBody s (assignmentCode e first a) = .ok t ∧ s.Keeps P first t ∧
      t.memory = s.memory.write (address a.target) w := by
  obtain ⟨t, ht, hkt, hmt, hvt⟩ := runBody_exprCode a.value hb hP.load hs hw
  obtain ⟨u, hu, hku, hmu, hau⟩ :=
    step_address (P := P) (hs.keeps hb hkt) (first + a.value.statements) a.target
  have hvu : u.value (a.value.result first) = .ok (.word w) := by
    rw [hku.value _ (a.value.result_lt first), hvt]
  obtain ⟨v, hv, hkv, hmv⟩ := Statement.step_store hvu hau hP.store first
  refine ⟨v, ?_, (hkt.trans hku (by omega)).trans hkv (Nat.le_refl _), ?_⟩
  · rw [assignmentCode, runBody_append_of_ok ht, runBody_cons_of_ok hu, runBody_cons_of_ok hv]
    rfl
  · rw [hmv, hmu, hmt]

/-- The code of assignments does them in order. -/
theorem runBody_assignmentsCode (as : List Assignment) (hb : e.Before first)
    (hP : ∀ a ∈ as, Accesses P address a) (hs : e.Reaches address s) {i k : Nat} {m : Memory}
    (hm : Program.assignAll address i k as s.memory = .ok m) :
    ∃ t, runBody s (assignmentsCode e first as) = .ok t ∧ s.Keeps P first t ∧ t.memory = m := by
  induction as generalizing first s k with
  | nil => exact ⟨s, rfl, .refl s first, Except.ok.inj hm⟩
  | cons a as ih =>
    rw [Program.assignAll] at hm
    cases hw : a.value.eval fun buffer => s.memory.read (address buffer) with
    | error stuck => simp [hw] at hm
    | ok w =>
      simp only [hw] at hm
      obtain ⟨t, ht, hkt, hmt⟩ := runBody_assignmentCode a hb (hP a (by simp)) hs hw
      obtain ⟨u, hu, hku, hmu⟩ := ih (hb.mono (Nat.le_add_right first (assignmentValues a)))
        (fun b h => hP b (List.mem_cons_of_mem a h)) (hs.keeps hb hkt) (by rw [hmt]; exact hm)
      refine ⟨u, ?_, hkt.trans hku (by omega), hmu⟩
      rw [assignmentsCode, runBody_append_of_ok ht, hu]

/-- The code of assignments stops at the operator at which doing them stops. -/
theorem stopsAt_assignmentsCode (as : List Assignment) (hb : e.Before first)
    (hP : ∀ a ∈ as, Accesses P address a) (hs : e.Reaches address s) {i k : Nat}
    {h : Program.Hazard} (hm : Program.assignAll address i k as s.memory = .error h) :
    ∃ statement t, StopsAt s (assignmentsCode e first as)
        (operatorPosition as (h.assignment - k) h.stuck.path) statement t ∧
      h.stuck.IsAt statement t ∧ s.Keeps P first t ∧ t.memory = h.memory ∧ h.element = i ∧
      k ≤ h.assignment := by
  induction as generalizing first s k with
  | nil => cases hm
  | cons a as ih =>
    rw [Program.assignAll] at hm
    cases hw : a.value.eval fun buffer => s.memory.read (address buffer) with
    | error stuck =>
      simp only [hw, Except.error.injEq] at hm
      subst hm
      obtain ⟨statement, t, ht, hat, hkt, hmt⟩ :=
        stopsAt_exprCode a.value hb (hP a (by simp)).load hs hw
      refine ⟨statement, t, ?_, hat, hkt, hmt, rfl, Nat.le_refl _⟩
      rw [assignmentsCode, assignmentCode, List.append_assoc]
      simpa [operatorPosition, assignmentPosition] using ht.append _
    | ok w =>
      simp only [hw] at hm
      obtain ⟨t, ht, hkt, hmt⟩ := runBody_assignmentCode a hb (hP a (by simp)) hs hw
      obtain ⟨statement, u, hu, hau, hku, hmu, hi, hk⟩ :=
        ih (hb.mono (Nat.le_add_right first (assignmentValues a)))
          (fun b h => hP b (List.mem_cons_of_mem a h)) (hs.keeps hb hkt) (by rw [hmt]; exact hm)
      refine ⟨statement, u, ?_, hau, hkt.trans hku (by omega), hmu, hi, by omega⟩
      obtain ⟨n, hn⟩ := Nat.exists_eq_add_of_le hk
      have h' := hu.after ht
      rw [hn, Nat.add_sub_cancel_left] at h'
      rw [assignmentsCode, hn, show k + 1 + n - k = n + 1 by omega]
      simpa [operatorPosition, assignmentPosition, Nat.add_assoc] using h'

end Emission

end FusedKernel
