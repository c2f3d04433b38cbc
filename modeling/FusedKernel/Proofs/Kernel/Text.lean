import Mathlib.Tactic.Common
import FusedKernel.Proofs.Code.Text
import FusedKernel.Proofs.Kernel.Layout

/-! The text of a program's function determines the program. In the code of an operator, the last
statement tells by its first operand where the code of the left operand ends. The code of an
assignment ends at the first store. -/
namespace FusedKernel

open Code Text

theorem Operator.instruction_injective {op op' : Operator}
    (h : op.instruction = op'.instruction) : op = op' := by
  cases op <;> cases op' <;> first | rfl | cases h

namespace Expr

theorem two_le_statements (x : Expr) : 2 ≤ x.statements := by
  induction x with
  | load buffer => exact Nat.le_refl 2
  | binary op lhs rhs ihl ihr =>
    rw [statements_binary]
    omega

end Expr

namespace Emission

variable {e : Element}

theorem base_injective {x y : Buffer} (h : base x = base y) : x = y :=
  Buffer.index_injective (Nat.succ.inj h)

/-- What the code of an expression shows determines the expression. -/
theorem exprCode_injective {first : Nat} {x y : Expr}
    (h : (exprCode e first x).map Statement.shown = (exprCode e first y).map Statement.shown) :
    x = y := by
  have hlength : x.statements = y.statements := by simpa using congrArg List.length h
  induction x generalizing first y with
  | load buffer =>
    cases y with
    | load buffer' =>
      obtain ⟨-, -, haddress⟩ := Shown.mk.inj (List.cons.inj h).1
      rw [base_injective (Operand.value.inj (List.cons.inj haddress).1)]
    | binary op lhs rhs =>
      have hl := lhs.two_le_statements
      rw [Expr.statements_load, Expr.statements_binary] at hlength
      omega
  | binary op lhs rhs ihl ihr =>
    cases y with
    | load buffer =>
      have hl := lhs.two_le_statements
      rw [Expr.statements_load, Expr.statements_binary] at hlength
      omega
    | binary op' lhs' rhs' =>
      simp only [exprCode, List.map_append] at h
      obtain ⟨hoperands, hlast⟩ := List.append_inj' h rfl
      obtain ⟨-, hop, hvalues⟩ := Shown.mk.inj (List.cons.inj hlast).1
      have hresult : lhs.result first = lhs'.result first :=
        Operand.value.inj (List.cons.inj hvalues).1
      -- the left operand's value is the last of its code, so both codes end at the same place
      have hl : lhs.statements = lhs'.statements := by
        have hnext := lhs.result_add_one first
        rw [hresult, lhs'.result_add_one] at hnext
        exact (Nat.add_left_cancel hnext).symm
      have hr : rhs.statements = rhs'.statements := by
        rw [Expr.statements_binary, Expr.statements_binary, hl] at hlength
        exact Nat.add_left_cancel (Nat.succ.inj hlength)
      rw [← hl] at hoperands
      obtain ⟨hlhs, hrhs⟩ := List.append_inj hoperands (by simpa using hl)
      rw [Operator.instruction_injective (Opcode.binary.inj hop), ihl hlhs hl, ihr hrhs hr]

/-- Every statement of an expression's code defines a value. -/
theorem isSome_result_exprCode {first : Nat} {x : Expr} :
    ∀ s ∈ (exprCode e first x).map Statement.shown, s.result.isSome := by
  induction x generalizing first with
  | load buffer => simp [exprCode, Statement.shown]
  | binary op lhs rhs ihl ihr =>
    intro s hs
    simp only [exprCode, List.map_append, List.mem_append] at hs
    obtain (hl | hr) | hlast := hs
    · exact ihl s hl
    · exact ihr s hr
    · obtain rfl := List.mem_singleton.mp hlast
      rfl

/-- The code of an assignment up to its store. -/
def addressedCode (e : Element) (first : Nat) (a : Assignment) : List Statement :=
  exprCode e first a.value ++
    [.define (first + a.value.statements) (.binary .iadd e.width.type (base a.target) e.offset)]

theorem assignmentCode_eq (e : Element) (first : Nat) (a : Assignment) :
    assignmentCode e first a = addressedCode e first a ++
      [.store .i32 (a.value.result first) (first + a.value.statements)] := by
  simp [assignmentCode, addressedCode]

theorem isSome_result_addressedCode {first : Nat} {a : Assignment} :
    ∀ s ∈ (addressedCode e first a).map Statement.shown, s.result.isSome := by
  intro s hs
  rw [addressedCode, List.map_append, List.mem_append] at hs
  obtain hvalue | haddress := hs
  · exact isSome_result_exprCode s hvalue
  · obtain rfl := List.mem_singleton.mp haddress
    rfl

/-- What starts with the code of an assignment determines the assignment and where it ends. -/
theorem assignmentCode_append_inj {first : Nat} {x y : Assignment} {s t : List Shown}
    (h : (assignmentCode e first x).map Statement.shown ++ s =
      (assignmentCode e first y).map Statement.shown ++ t) : x = y ∧ s = t := by
  simp only [assignmentCode_eq, List.map_append, List.append_assoc] at h
  obtain ⟨haddressed, hrest⟩ := append_inj_of_takeWhile isSome_result_addressedCode
    isSome_result_addressedCode rfl rfl h
  simp only [addressedCode, List.map_append] at haddressed
  obtain ⟨hvalue, htarget⟩ := List.append_inj' haddressed rfl
  obtain ⟨-, -, haddress⟩ := Shown.mk.inj (List.cons.inj htarget).1
  have hbase : base x.target = base y.target := Operand.value.inj (List.cons.inj haddress).1
  exact ⟨congrArg₂ Assignment.mk (base_injective hbase) (exprCode_injective hvalue),
    (List.cons.inj hrest).2⟩

/-- What the code of assignments in order shows determines the assignments. -/
theorem assignmentsCode_injective {first : Nat} {xs ys : List Assignment}
    (h : (assignmentsCode e first xs).map Statement.shown =
      (assignmentsCode e first ys).map Statement.shown) : xs = ys := by
  induction xs generalizing first ys with
  | nil =>
    cases ys with
    | nil => rfl
    | cons y ys => simp [assignmentsCode, assignmentCode] at h
  | cons x xs ih =>
    cases ys with
    | nil => simp [assignmentsCode, assignmentCode] at h
    | cons y ys =>
      simp only [assignmentsCode, List.map_append] at h
      obtain ⟨rfl, hrest⟩ := assignmentCode_append_inj h
      rw [ih hrest]

end Emission

open Emission

namespace Program

theorem assignments_injective {p q : Program} (h : p.assignments = q.assignments) : p = q := by
  obtain ⟨hstores, hlast⟩ := List.append_inj' h rfl
  obtain ⟨-, hresult⟩ := Assignment.mk.inj (List.cons.inj hlast).1
  exact congrArg₂ Program.mk hstores hresult

/-- The texts of two programs' functions, for one width of addresses, are the same only if the
programs and their numbers are: every assignment's target and expression, their order and that of
all operands can be told from the text. -/
theorem lines_toFunction_eq_iff {p q : Program} {width : AddressWidth} {m n : Nat} :
    (p.toFunction width m).lines = (q.toFunction width n).lines ↔ p = q ∧ m = n := by
  constructor
  · intro h
    obtain ⟨hnumber, hblocks⟩ := Function.shown_eq_of_lines h
    simp only [blocks_toFunction, List.map_cons] at hblocks
    -- the third block is the one that does an element
    obtain ⟨hbody, -⟩ := List.cons.inj (List.cons.inj (List.cons.inj hblocks).2).2
    simp only [Block.shown, bodyCode, List.map_append] at hbody
    obtain ⟨hassignments, -⟩ := List.append_inj' (List.append_cancel_left hbody) rfl
    exact ⟨assignments_injective (assignmentsCode_injective hassignments), hnumber⟩
  · rintro ⟨rfl, rfl⟩
    rfl

end Program

end FusedKernel
