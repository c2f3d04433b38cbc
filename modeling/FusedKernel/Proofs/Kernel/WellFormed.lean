import Mathlib.Tactic.Common
import FusedKernel.Proofs.Code.WellFormed
import FusedKernel.Proofs.Kernel.Layout

/-! The function of every program is well-formed. The code of an expression passes the check where
the bases and the byte offset are known, by induction on the expression, and so does that of a list
of assignments. Of the four blocks, each one that uses values comes after those that dominate it. -/
namespace FusedKernel

open Code

/-- The kinds of the values that an expression's code defines. -/
def Expr.kinds : Expr → List Kind
  | load _ => [.address, .data]
  | binary _ lhs rhs => lhs.kinds ++ rhs.kinds ++ [.data]

@[simp] theorem Expr.length_kinds (x : Expr) : x.kinds.length = x.statements := by
  induction x with
  | load buffer => rfl
  | binary op lhs rhs ihl ihr => simp [kinds, ihl, ihr, Nat.add_assoc]

/-- The kinds of the values that an assignment's code defines. -/
def Assignment.kinds (a : Assignment) : List Kind := a.value.kinds ++ [.address]

@[simp] theorem Assignment.length_kinds (a : Assignment) :
    a.kinds.length = Emission.assignmentValues a := by
  simp [kinds, Emission.assignmentValues]

/-- The value of an expression is data. -/
theorem Expr.kind_result (x : Expr) (kinds : List Kind) :
    (kinds ++ x.kinds)[x.result kinds.length]? = some .data := by
  cases x with
  | load buffer => simp [Expr.kinds, result]
  | binary op lhs rhs => simp [Expr.kinds, result]

namespace Emission

variable {e : Element} {kinds : List Kind}

/-- The kinds of the bases and of the byte offset are known. -/
structure Element.Known (e : Element) (kinds : List Kind) : Prop where
  base : ∀ buffer, kinds[Emission.base buffer]? = some .base
  offset : kinds[e.offset]? = some .offset

theorem Element.Known.append (h : e.Known kinds) (new : List Kind) : e.Known (kinds ++ new) :=
  ⟨fun buffer => kind_append (h.base buffer) new, kind_append h.offset new⟩

theorem checked_address (h : e.Known kinds) (buffer : Buffer) {number : ValueId}
    (hn : number = kinds.length) :
    Checked e.width kinds
      [.define number (.binary .iadd e.width.type (base buffer) e.offset)] [.address] :=
  .single hn (.address (h.base buffer) h.offset)

/-- The code of an expression passes the check. -/
theorem checked_exprCode (h : e.Known kinds) (x : Expr) :
    Checked e.width kinds (exprCode e kinds.length x) x.kinds := by
  induction x generalizing kinds with
  | load buffer =>
    have hload : Checked e.width (kinds ++ [.address])
        [.define (kinds.length + 1) (.load .i32 kinds.length)] [.data] :=
      .single (by simp) (.load (by simp))
    exact (checked_address h buffer rfl).append hload
  | binary op lhs rhs ihl ihr =>
    have hlength : (kinds ++ lhs.kinds).length = kinds.length + lhs.statements := by simp
    have hl := lhs.kind_result kinds
    have hr := rhs.kind_result (kinds ++ lhs.kinds)
    have hrhs := ihr (h.append lhs.kinds)
    rw [hlength] at hr hrhs
    refine ((ihl h).append hrhs).append (.single ?_ (.operator ?_ ?_))
    · simp
    · rw [← List.append_assoc]
      exact kind_append hl rhs.kinds
    · rw [← List.append_assoc]
      exact hr

/-- The code of an assignment passes the check. -/
theorem checked_assignmentCode (h : e.Known kinds) (a : Assignment) :
    Checked e.width kinds (assignmentCode e kinds.length a) a.kinds := by
  have hvalue := kind_append (a.value.kind_result kinds) [.address]
  have haddress : Checked e.width (kinds ++ a.value.kinds)
      [.define (kinds.length + a.value.statements)
        (.binary .iadd e.width.type (base a.target) e.offset)] [.address] :=
    checked_address (h.append a.value.kinds) a.target (by simp)
  have hstore : Checked e.width (kinds ++ a.value.kinds ++ [.address])
      [.store .i32 (a.value.result kinds.length) (kinds.length + a.value.statements)] [] :=
    .store hvalue (by simp) .nil
  exact (checked_exprCode h a.value).append (haddress.append hstore)

/-- The kinds of the values that the code of some assignments defines. -/
def assignmentsKinds (as : List Assignment) : List Kind := as.flatMap Assignment.kinds

@[simp] theorem length_assignmentsKinds (as : List Assignment) :
    (assignmentsKinds as).length = assignmentsValues as := by
  induction as with
  | nil => rfl
  | cons a as ih => simpa [assignmentsKinds, assignmentsValues] using ih

/-- The code of assignments in order passes the check. -/
theorem checked_assignmentsCode (h : e.Known kinds) (as : List Assignment) :
    Checked e.width kinds (assignmentsCode e kinds.length as) (assignmentsKinds as) := by
  induction as generalizing kinds with
  | nil => exact .nil
  | cons a as ih =>
    have hrest := ih (h.append a.kinds)
    rw [List.length_append, a.length_kinds] at hrest
    exact (checked_assignmentCode h a).append hrest

/-! ### The blocks -/

/-- The kinds of the parameters of a function: the size and the bases. -/
def signatureKinds : List Kind := [.data, .base, .base, .base, .base]

/-- The kinds of the values that the code of the byte offset defines. -/
def offsetKinds : AddressWidth → List Kind
  | .bits32 => [.offset]
  | .bits64 => [.wide, .offset]

/-- The kinds of the values that are known where the elements' block starts. -/
def outerKinds : List Kind := signatureKinds ++ [.data] ++ [.data] ++ [.truth]

theorem checked_offsetCode (width : AddressWidth) :
    Checked width outerKinds (offsetCode width) (offsetKinds width) := by
  cases width with
  | bits32 => exact .define (.scale rfl) .nil
  | bits64 => exact .define (.extend rfl rfl) (.define (.scale rfl) .nil)

theorem known_element (width : AddressWidth) :
    (element width).Known (outerKinds ++ offsetKinds width) := by
  cases width <;> exact ⟨fun buffer => by cases buffer <;> rfl, rfl⟩

theorem length_outerKinds (width : AddressWidth) :
    (outerKinds ++ offsetKinds width).length = firstFree width := by
  cases width <;> rfl

/-- The code that does an element passes the check behind that of the byte offset. -/
theorem checked_elementCode (width : AddressWidth) (p : Program) :
    Checked width (outerKinds ++ offsetKinds width)
      (assignmentsCode (element width) (firstFree width) p.assignments ++
        [.define (following width p) (.addImm .i32 index 1)])
      (assignmentsKinds p.assignments ++ [.data]) := by
  have has := checked_assignmentsCode (known_element width) p.assignments
  rw [length_outerKinds] at has
  have hindex : outerKinds[index]? = some .data := rfl
  refine has.append (.single ?_ (.advance (kind_append (kind_append hindex _) _)))
  rw [List.length_append, length_outerKinds, length_assignmentsKinds, following]

/-- The block that does an element passes the check. -/
theorem checked_bodyCode (width : AddressWidth) (p : Program) :
    Checked width outerKinds (bodyCode width p).body
      (offsetKinds width ++ (assignmentsKinds p.assignments ++ [.data])) :=
  (checked_offsetCode width).append (checked_elementCode width p)

end Emission

open Emission

namespace Program

/-- The kinds of the values that a program's function defines. -/
def kinds (width : AddressWidth) (p : Program) : List Kind :=
  outerKinds ++ offsetKinds width ++ assignmentsKinds p.assignments ++ [.data]

variable (p : Program) (width : AddressWidth) (number : Nat)

theorem kind_following : (p.kinds width)[following width p]? = some .data := by
  have hlast : (outerKinds ++ offsetKinds width ++ assignmentsKinds p.assignments).length =
      following width p := by
    rw [List.length_append, length_outerKinds, length_assignmentsKinds, following]
  rw [kinds, ← hlast, List.getElem?_concat_length]

/-- The values that are known where the elements' block starts keep their kinds. -/
theorem kind_of_outer {x : Nat} {kind : Kind} (h : outerKinds[x]? = some kind) :
    (p.kinds width)[x]? = some kind :=
  kind_append (kind_append (kind_append h _) _) _

/-- The blocks of a program pass the check one after the other. -/
theorem checkedBlocks_toFunction :
    CheckedBlocks width [] (p.toFunction width number).blocks (p.kinds width) := by
  -- from the last block to the first; an empty list of kinds is for what defines nothing
  have hexit : CheckedBlocks width (p.kinds width) [exitCode] ([] ++ [] ++ []) :=
    .cons rfl .nil (fun x hx => by cases hx) (by simpa using .nil)
  have hbody : CheckedBlocks width outerKinds [bodyCode width p, exitCode]
      ([] ++ (offsetKinds width ++ (assignmentsKinds p.assignments ++ [.data])) ++
        ([] ++ [] ++ [])) := by
    refine .cons rfl (by simpa using checked_bodyCode width p) (fun x hx => ?_) ?_
    · obtain rfl := List.mem_singleton.mp hx
      rw [List.append_nil, ← List.append_assoc, ← List.append_assoc]
      exact lt_length_of_kind (p.kind_following width)
    · simpa [kinds] using hexit
  have h : CheckedBlocks width [] [entryCode width, conditionCode, bodyCode width p, exitCode]
      (signatureKinds ++ [.data] ++ ([.data] ++ [.truth] ++ ([] ++ (offsetKinds width ++
        (assignmentsKinds p.assignments ++ [.data])) ++ ([] ++ [] ++ [])))) := by
    refine .cons rfl (.single rfl .const) (fun x hx => ?_) (.cons rfl ?_ (fun x hx => ?_) hbody)
    · obtain rfl := List.mem_singleton.mp hx
      decide
    · exact .single rfl (.lessThan rfl rfl)
    · obtain rfl := List.mem_singleton.mp hx
      decide
  rw [blocks_toFunction]
  simpa [kinds, outerKinds] using h

/-- A way through the blocks starts with the first, and passes the second before any other. -/
theorem passed_of_path {passed : List BlockId} {block : BlockId}
    (h : (p.toFunction width number).Path passed block) :
    block = 0 ∨ 0 ∈ passed ∧ (block = 1 ∨ 1 ∈ passed ∧ (block = 2 ∨ block = 3)) := by
  induction h with
  | entry => exact .inl rfl
  | @step passed block target b _ hb ht ih =>
    rw [blocks_toFunction] at hb
    -- the cases are those of the block that is left
    obtain rfl | ⟨hzero, rfl | ⟨hone, rfl | rfl⟩⟩ := ih
    · cases hb
      obtain rfl := List.mem_singleton.mp ht
      simp [conditionBlock]
    · cases hb
      obtain rfl | ht := List.mem_cons.mp ht
      · simp [bodyBlock, hzero]
      · obtain rfl := List.mem_singleton.mp ht
        simp [exitBlock, hzero]
    · cases hb
      obtain rfl := List.mem_singleton.mp ht
      simp [conditionBlock, hzero]
    · cases hb
      cases ht

/-- Every block with statements is dominated by those before it. -/
theorem dominates_toFunction {d block : Nat} (hd : d < block) (hblock : block < 3) :
    (p.toFunction width number).Dominates d block := by
  intro passed h
  obtain rfl | ⟨hzero, rfl | ⟨hone, rfl | rfl⟩⟩ := p.passed_of_path width number h
  · cases hd
  · obtain rfl : d = 0 := by omega
    exact List.mem_cons_of_mem 1 hzero
  · obtain rfl | rfl : d = 0 ∨ d = 1 := by omega
    · exact List.mem_cons_of_mem 2 hzero
    · exact List.mem_cons_of_mem 2 hone
  · exact absurd hblock (by decide)

theorem block_toFunction {id : BlockId} {b : Block}
    (h : [entryCode width, conditionCode, bodyCode width p, exitCode][id]? = some b) :
    (p.toFunction width number).blocks[id]? = some b := by
  rwa [blocks_toFunction]

theorem exits_fit {b : Block} (hb : b ∈ (p.toFunction width number).blocks) :
    b.exit.Fits (p.toFunction width number) (p.kinds width) := by
  have hstart : (p.kinds width)[start]? = some .data := p.kind_of_outer width rfl
  have hindex : (p.kinds width)[index]? = some .data := p.kind_of_outer width rfl
  have hinBounds : (p.kinds width)[inBounds]? = some .truth := p.kind_of_outer width rfl
  have hfollowing := p.kind_following width
  have hcondition : (p.toFunction width number).blocks[conditionBlock]? = some conditionCode :=
    p.block_toFunction width number rfl
  rw [blocks_toFunction] at hb
  simp only [List.mem_cons, List.not_mem_nil, or_false] at hb
  obtain rfl | rfl | rfl | rfl := hb
  · exact ⟨conditionCode, hcondition, by simp [conditionCode, hstart, hindex]⟩
  · refine ⟨hinBounds, fun target ht => ?_⟩
    obtain rfl | ht := List.mem_cons.mp ht
    · exact ⟨bodyCode width p, p.block_toFunction width number rfl, rfl⟩
    · obtain rfl := List.mem_singleton.mp ht
      exact ⟨exitCode, p.block_toFunction width number rfl, rfl⟩
  · exact ⟨conditionCode, hcondition, by simp [conditionCode, hfollowing, hindex]⟩
  · trivial

/-- The function of every program, for both widths of addresses, consists of four blocks with the
exits and the parameters of a loop, and its code is well-formed: operators and comparisons work on
words, and addresses are added up from the bases among the parameters and a byte offset. -/
theorem wellFormed_toFunction :
    (p.toFunction width number).blocks.map Block.exit =
        [.jump 1 [start], .branch inBounds 2 3, .jump 1 [following width p], .leave] ∧
      (p.toFunction width number).blocks.map Block.params =
        [Draft.numbered 0 (signature width), [(index, .i32)], [], []] ∧
      (∀ buffer, (p.kinds width)[base buffer]? = some .base) ∧
      (p.toFunction width number).WellFormed width (p.kinds width) := by
  refine ⟨?_, ?_, fun buffer => p.kind_of_outer width ?_, ?_⟩
  · rw [blocks_toFunction]
    rfl
  · rw [blocks_toFunction]
    rfl
  · cases buffer <;> rfl
  · refine Function.wellFormed_of_checked (p.checkedBlocks_toFunction width number)
      (fun block b hb => ?_) (fun b hb => p.exits_fit width number hb)
    obtain hblock | hblock := Nat.lt_or_ge block 3
    · exact .inr fun d hd => p.dominates_toFunction width number hd hblock
    · -- only the last block is left, which uses nothing
      rw [blocks_toFunction] at hb
      have hlt := (List.getElem?_eq_some_iff.mp hb).1
      obtain rfl : block = 3 := Nat.le_antisymm (Nat.le_of_lt_succ hlt) hblock
      cases hb
      exact .inl rfl

end Program

end FusedKernel
