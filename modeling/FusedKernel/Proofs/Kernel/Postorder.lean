import Mathlib.Data.List.Forall2
import FusedKernel.Proofs.Kernel.Layout

/-! Emission only appends. The code of an expression is its loads and operators in post-order, each
on the values of the code before it, and nothing else of a draft changes but the number of the next
value. So the block that does an element consists of the code of the byte offset, the parts of the
assignments one after the other, and the increment of the index. The offset is computed in one
place, and every address is added up from it. -/
namespace FusedKernel

open Code

/-- Whether a statement multiplies by a constant, as the computation of a byte offset does. -/
def Code.Statement.scales : Statement → Bool
  | define _ (.mulImm _ _ _) => true
  | define _ _ | store _ _ _ => false

/-- The address at which a statement loads or stores. -/
def Code.Statement.address? : Statement → Option ValueId
  | define _ (.load _ address) | store _ _ address => some address
  | define _ _ => none

namespace Emission

/-- The address of the current element of a buffer, as a sum of its base and the byte offset. -/
def addressOf (e : Element) (buffer : Buffer) : Definition :=
  .binary .iadd e.width.type (base buffer) e.offset

/-! ### Code that shares the offset -/

/-- Code that computes no byte offset, and loads and stores only at sums of a base and the offset of
an element. -/
structure SharesOffset (e : Element) (code : List Statement) : Prop where
  scales : ∀ s ∈ code, s.scales = false
  addresses : ∀ s ∈ code, ∀ q ∈ s.address?, ∃ buffer, .define q (addressOf e buffer) ∈ code

namespace SharesOffset

variable {e : Element} {xs ys : List Statement}

theorem nil : SharesOffset e [] := ⟨List.forall_mem_nil _, List.forall_mem_nil _⟩

theorem append (h : SharesOffset e xs) (h' : SharesOffset e ys) : SharesOffset e (xs ++ ys) := by
  refine ⟨List.forall_mem_append.mpr ⟨h.scales, h'.scales⟩,
    List.forall_mem_append.mpr ⟨fun s hs q hq => ?_, fun s hs q hq => ?_⟩⟩
  · obtain ⟨buffer, hmem⟩ := h.addresses s hs q hq
    exact ⟨buffer, List.mem_append_left ys hmem⟩
  · obtain ⟨buffer, hmem⟩ := h'.addresses s hs q hq
    exact ⟨buffer, List.mem_append_right xs hmem⟩

theorem define {value : Definition} (v : ValueId) (hs : (Statement.define v value).scales = false)
    (ha : (Statement.define v value).address? = none) : SharesOffset e [.define v value] :=
  ⟨by simpa using hs, by simp [ha]⟩

/-- An access right behind the computation of its address. -/
theorem access {s : Statement} {p : ValueId} (buffer : Buffer) (hs : s.scales = false)
    (hp : s.address? = some p) : SharesOffset e [.define p (addressOf e buffer), s] := by
  refine ⟨by simpa [addressOf, Statement.scales] using hs, fun t ht q hq => ⟨buffer, ?_⟩⟩
  simp only [List.mem_cons, List.not_mem_nil, or_false] at ht
  obtain rfl | rfl := ht
  · cases hq
  · obtain rfl := Option.some.inj (hp.symm.trans hq)
    exact List.mem_cons_self

end SharesOffset

/-! ### Expressions -/

/-- Code in post-order for an expression, and its value: the code of the left operand, that of the
right one, and the operator on their values. A load takes two statements. -/
inductive InPostorder (e : Element) : Expr → List Statement → ValueId → Prop
  | load {buffer : Buffer} {p v : ValueId} :
    InPostorder e (.load buffer) [.define p (addressOf e buffer), .define v (.load .i32 p)] v
  | binary {op : Operator} {lhs rhs : Expr} {left right : List Statement} {x y v : ValueId} :
    InPostorder e lhs left x → InPostorder e rhs right y →
    InPostorder e (.binary op lhs rhs)
      (left ++ right ++ [.define v (.binary op.instruction .i32 x y)]) v

namespace InPostorder

variable {e : Element} {x : Expr} {code : List Statement} {v : ValueId}

theorem length_eq (h : InPostorder e x code v) : code.length = 2 * x.loads + x.operators := by
  induction h with
  | load => rfl
  | binary _ _ ihl ihr =>
    simp only [List.length_append, List.length_singleton, ihl, ihr, Expr.loads, Expr.operators]
    omega

/-- The last statement defines the value, which is a word. -/
theorem exists_getLast? (h : InPostorder e x code v) :
    ∃ value : Definition, code.getLast? = some (.define v value) ∧ value.resultType = .i32 := by
  cases h with
  | load => exact ⟨_, rfl, rfl⟩
  | binary _ _ => exact ⟨_, List.getLast?_concat, rfl⟩

theorem sharesOffset (h : InPostorder e x code v) : SharesOffset e code := by
  induction h with
  | @load buffer p v => exact .access buffer rfl rfl
  | binary _ _ ihl ihr => exact (ihl.append ihr).append (.define _ rfl rfl)

end InPostorder

theorem inPostorder_exprCode (e : Element) (first : Nat) (x : Expr) :
    InPostorder e x (exprCode e first x) (x.result first) := by
  induction x generalizing first with
  | load buffer => exact .load
  | binary op lhs rhs ihl ihr => exact .binary (ihl first) (ihr (first + lhs.statements))

/-- Every statement of an expression's code defines the value with the next number. -/
theorem numbers_exprCode (e : Element) (first : Nat) (x : Expr) :
    ((exprCode e first x).filterMap Statement.defined?).map Prod.fst =
      List.range' first x.statements := by
  induction x generalizing first with
  | load buffer => rfl
  | binary op lhs rhs ihl ihr =>
    rw [exprCode, List.filterMap_append, List.filterMap_append, List.map_append, List.map_append,
      ihl, ihr, List.range'_append_1, Expr.statements_binary, List.range'_1_concat]
    rfl

/-- What emission of an expression makes of a draft: some code is appended to the open block, and
the value of the expression comes out. No block is closed, and no parameter is added, which is what
a variable becomes. -/
structure Appends (e : Element) (x : Expr) (d : Draft) (out : ValueId × Draft)
    (code : List Statement) : Prop where
  closed : out.2.closed = d.closed
  params : out.2.params = d.params
  body : out.2.body.toList = d.body.toList ++ code
  next : out.2.next = d.next + code.length
  length : code.length = 2 * x.loads + x.operators
  postorder : InPostorder e x code out.1
  /-- Every statement defines a value, and the numbers go on from those of the draft. -/
  numbers : (code.filterMap Statement.defined?).map Prod.fst = List.range' d.next code.length
  fresh : d.next ≤ out.1
  last : out.1 + 1 = out.2.next
  value : ∃ value : Definition, code.getLast? = some (.define out.1 value) ∧
    value.resultType = .i32

theorem appends_expr (e : Element) (x : Expr) (d : Draft) :
    Appends e x d (expr e x d) (exprCode e d.next x) := by
  have hpost := inPostorder_exprCode e d.next x
  rw [expr_eq]
  exact {
    closed := rfl
    params := rfl
    body := by simp [Draft.extend]
    next := by rw [Draft.next_extend, length_exprCode]
    length := hpost.length_eq
    postorder := hpost
    numbers := by rw [numbers_exprCode, length_exprCode]
    fresh := x.le_result d.next
    last := x.result_add_one d.next
    value := hpost.exists_getLast? }

/-! ### Assignments -/

/-- The part of an assignment: the code of its expression, the address of its target, and the store
of the expression's value there. -/
inductive IsPart (e : Element) : Assignment → List Statement → Prop
  | mk {a : Assignment} {code : List Statement} {v p : ValueId} : InPostorder e a.value code v →
    IsPart e a (code ++ [.define p (addressOf e a.target), .store .i32 v p])

section
variable {e : Element} {as : List Assignment} {parts : List (List Statement)}

theorem IsPart.length_eq {a : Assignment} {part : List Statement} (h : IsPart e a part) :
    part.length = 2 * a.value.loads + a.value.operators + 2 := by
  obtain ⟨hpost⟩ := h
  rw [List.length_append, hpost.length_eq]
  rfl

theorem IsPart.sharesOffset {a : Assignment} {part : List Statement} (h : IsPart e a part) :
    SharesOffset e part := by
  obtain ⟨hpost⟩ := h
  exact hpost.sharesOffset.append (.access a.target rfl rfl)

theorem map_length_parts (h : List.Forall₂ (IsPart e) as parts) :
    parts.map List.length = as.map fun a => 2 * a.value.loads + a.value.operators + 2 := by
  induction h with
  | nil => rfl
  | cons ha _ ih => rw [List.map_cons, List.map_cons, ha.length_eq, ih]

theorem sharesOffset_parts (h : List.Forall₂ (IsPart e) as parts) :
    SharesOffset e parts.flatten := by
  induction h with
  | nil => exact .nil
  | cons ha _ ih => exact ha.sharesOffset.append ih

end

/-- The code of assignments consists of their parts. -/
theorem exists_parts (e : Element) (first : Nat) (as : List Assignment) :
    ∃ parts, assignmentsCode e first as = parts.flatten ∧ List.Forall₂ (IsPart e) as parts := by
  induction as generalizing first with
  | nil => exact ⟨[], rfl, .nil⟩
  | cons a as ih =>
    obtain ⟨parts, hcode, hparts⟩ := ih (first + assignmentValues a)
    refine ⟨assignmentCode e first a :: parts, ?_, .cons ?_ hparts⟩
    · rw [assignmentsCode, hcode, List.flatten_cons]
    · exact .mk (inPostorder_exprCode e first a.value)

/-! ### The block of an element -/

/-- The statements that the byte offset takes. -/
def offsetStatements : AddressWidth → Nat
  | .bits32 => 1
  | .bits64 => 2

/-- The index at the width of addresses. -/
def wideIndex : AddressWidth → ValueId
  | .bits32 => index
  | .bits64 => 8

/-- What the block that does an element consists of: the code of the offset, the parts of the stores
and of the output, and the increment of the index, with which it jumps back to the condition. -/
structure DoesElement (width : AddressWidth) (p : Program) (b : Block)
    (parts : List (List Statement)) : Prop where
  params : b.params = []
  body : b.body = offsetCode width ++
    (parts.flatten ++ [.define (following width p) (.addImm .i32 index 1)])
  exit : b.exit = .jump conditionBlock [following width p]
  length_offset : (offsetCode width).length = offsetStatements width
  forall_isPart : List.Forall₂ (IsPart (element width)) p.assignments parts
  length_parts : parts.map List.length = p.assignments.map fun a =>
    2 * a.value.loads + a.value.operators + 2
  /-- The offset is computed once. -/
  scales : b.body.filter Statement.scales =
    [.define (offset width) (.mulImm width.type (wideIndex width) 4)]
  /-- Every address is a base plus the offset. -/
  addresses : ∀ s ∈ b.body, ∀ q ∈ s.address?, ∃ buffer,
    .define q (.binary .iadd width.type (base buffer) (offset width)) ∈ b.body

theorem address?_of_mem_offsetCode {width : AddressWidth} {s : Statement}
    (hs : s ∈ offsetCode width) : s.address? = none := by
  cases width with
  | bits32 =>
    obtain rfl := List.mem_singleton.mp hs
    rfl
  | bits64 =>
    simp only [offsetCode, List.mem_cons, List.not_mem_nil, or_false] at hs
    obtain rfl | rfl := hs <;> rfl

theorem exists_doesElement (width : AddressWidth) (p : Program) :
    ∃ parts, DoesElement width p (bodyCode width p) parts := by
  obtain ⟨parts, hcode, hparts⟩ := exists_parts (element width) (firstFree width) p.assignments
  have hbody : (bodyCode width p).body = offsetCode width ++
      (parts.flatten ++ [.define (following width p) (.addImm .i32 index 1)]) := by
    rw [bodyCode, hcode]
  have hshares : SharesOffset (element width)
      (parts.flatten ++ [.define (following width p) (.addImm .i32 index 1)]) :=
    (sharesOffset_parts hparts).append (.define _ rfl rfl)
  refine ⟨parts, rfl, hbody, rfl, ?_, hparts, map_length_parts hparts, ?_, ?_⟩
  · cases width <;> rfl
  · have hrest := List.filter_eq_nil_iff.mpr fun s hs => Bool.eq_false_iff.mp (hshares.scales s hs)
    rw [hbody, List.filter_append, hrest]
    cases width <;> rfl
  · rw [hbody]
    intro s hs q hq
    obtain hs | hs := List.mem_append.mp hs
    · rw [address?_of_mem_offsetCode hs] at hq
      cases hq
    · obtain ⟨buffer, hmem⟩ := hshares.addresses s hs q hq
      exact ⟨buffer, List.mem_append_right _ hmem⟩

/-- Emission is append-only and linear. On every draft, the code of an expression is appended to the
open block, two statements for each load and one for each operator, in post-order; the rest of the
draft stays as it is, and the value that comes out is the last one defined. So the block that does
an element of a program takes one statement or two for the byte offset, those of the stores and of
the output, each with two more for the address and the store, and one for the increment. The offset
is computed once, and every address uses it. -/
theorem emission_linear :
    (∀ (e : Element) (x : Expr) (d : Draft), ∃ code, Appends e x d (expr e x d) code) ∧
    ∀ (p : Program) (width : AddressWidth) (number : Nat), ∃ b parts,
      (p.toFunction width number).blocks[bodyBlock]? = some b ∧ DoesElement width p b parts := by
  refine ⟨fun e x d => ⟨_, appends_expr e x d⟩, fun p width number => ?_⟩
  obtain ⟨parts, h⟩ := exists_doesElement width p
  refine ⟨bodyCode width p, parts, ?_, h⟩
  rw [Program.blocks_toFunction]
  rfl

end Emission

end FusedKernel
