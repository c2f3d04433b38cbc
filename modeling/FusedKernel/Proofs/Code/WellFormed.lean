import Mathlib.Tactic.Common
import FusedKernel.Code.Draft

/-! Well-formed code: values are numbered in the order of their definition, every definition
dominates the uses of its value, and operands are of the kinds that their places ask for. A check
that reads the statements in order and knows the kinds of the values so far is enough, as long as
every block with operands is dominated by those before it. -/
namespace FusedKernel.Code

/-! ### Dominance -/

/-- The blocks that control can go to. -/
def Exit.targets : Exit → List BlockId
  | jump target _ => [target]
  | branch _ ifTrue ifFalse => [ifTrue, ifFalse]
  | leave => []

/-- The values that a block has defined where its body has come to a position. -/
def Block.definedBefore (b : Block) (position : Nat) : List (ValueId × Ty) :=
  b.params ++ (b.body.take position).filterMap Statement.defined?

namespace Function

/-- The values that a function defines, in order. -/
def defined (f : Function) : List (ValueId × Ty) := f.blocks.flatMap Block.defined

/-- The ways from the entry to a block, each as the blocks that it leaves, the last one first. -/
inductive Path (f : Function) : List BlockId → BlockId → Prop
  | entry : Path f [] 0
  | step {passed : List BlockId} {block target : BlockId} {b : Block} : Path f passed block →
    f.blocks[block]? = some b → target ∈ b.exit.targets → Path f (block :: passed) target

/-- Every way to a block leads through another, or it is that block. -/
def Dominates (f : Function) (d block : BlockId) : Prop :=
  ∀ passed, f.Path passed block → d ∈ block :: passed

/-- The definition of a value dominates a position in a block: it comes before it in that block, or
it is in another one that dominates the block. -/
def DominatesUse (f : Function) (x : ValueId) (block : BlockId) (position : Nat) : Prop :=
  ∃ d b, f.blocks[d]? = some b ∧
    if d = block then x ∈ (b.definedBefore position).map Prod.fst
    else x ∈ b.defined.map Prod.fst ∧ f.Dominates d block

end Function

/-! ### Kinds of values -/

/-- What a value stands for. Data and addresses may have the same type. -/
inductive Kind
  /-- The result of a comparison. -/
  | truth
  /-- A word: the size, the index, and all that is loaded, computed and stored. -/
  | data
  /-- The index at the width of addresses. -/
  | wide
  /-- The address of a buffer. -/
  | base
  /-- The byte offset of an element. -/
  | offset
  /-- The address of an element. -/
  | address
  deriving DecidableEq, Repr

/-- The type of the values of a kind. -/
def Kind.type (width : AddressWidth) : Kind → Ty
  | truth => .i8
  | data => .i32
  | wide | base | offset | address => width.type

/-- The kind of the index from which byte offsets are computed. -/
def AddressWidth.indexKind : AddressWidth → Kind
  | bits32 => .data
  | bits64 => .wide

/-- The kind of the value that a definition gives, over the kinds of the values before it. Operators
and comparisons work on data alone, and only a base and an offset are added up to an address. -/
inductive Definition.Gives (width : AddressWidth) (kinds : List Kind) : Definition → Kind → Prop
  | const {n : Int} : Gives width kinds (.const .i32 n) .data
  | extend {x : ValueId} : width = .bits64 → kinds[x]? = some .data →
    Gives width kinds (.extend .i64 x) .wide
  | advance {x : ValueId} {n : Int} : kinds[x]? = some .data →
    Gives width kinds (.addImm .i32 x n) .data
  | scale {x : ValueId} {n : Int} : kinds[x]? = some width.indexKind →
    Gives width kinds (.mulImm width.type x n) .offset
  | address {x y : ValueId} : kinds[x]? = some .base → kinds[y]? = some .offset →
    Gives width kinds (.binary .iadd width.type x y) .address
  | operator {op : BinaryOp} {x y : ValueId} : kinds[x]? = some .data → kinds[y]? = some .data →
    Gives width kinds (.binary op .i32 x y) .data
  | lessThan {x y : ValueId} : kinds[x]? = some .data → kinds[y]? = some .data →
    Gives width kinds (.lessThan .i32 x y) .truth
  | load {p : ValueId} : kinds[p]? = some .address → Gives width kinds (.load .i32 p) .data

/-- A statement defines a value of its kind, or stores data at an address. -/
def Statement.Fits (width : AddressWidth) (kinds : List Kind) : Statement → Prop
  | define result value => ∃ kind, kinds[result]? = some kind ∧ value.Gives width kinds kind
  | store type value address =>
    type = .i32 ∧ kinds[value]? = some .data ∧ kinds[address]? = some .address

/-- A jump passes arguments of the kinds of the parameters, and a branch on a truth value goes to
blocks without parameters. -/
def Exit.Fits (f : Function) (kinds : List Kind) : Exit → Prop
  | jump target arguments => ∃ b, f.blocks[target]? = some b ∧
      arguments.map (kinds[·]?) = b.params.map (kinds[·.1]?)
  | branch condition ifTrue ifFalse => kinds[condition]? = some .truth ∧
      ∀ target ∈ [ifTrue, ifFalse], ∃ b, f.blocks[target]? = some b ∧ b.params = []
  | leave => True

/-- The code of a function is well-formed, and its values are of given kinds. -/
structure Function.WellFormed (f : Function) (width : AddressWidth) (kinds : List Kind) :
    Prop where
  /-- Every value is defined once, and the numbers are those of the order of definition. -/
  numbers : f.defined.map Prod.fst = List.range f.defined.length
  types : f.defined.map Prod.snd = kinds.map (Kind.type width)
  dominated : ∀ block b, f.blocks[block]? = some b →
    (∀ position s, b.body[position]? = some s → ∀ x ∈ s.operands, f.DominatesUse x block position) ∧
    ∀ x ∈ b.exit.operands, f.DominatesUse x block b.body.length
  statements : ∀ b ∈ f.blocks, ∀ s ∈ b.body, s.Fits width kinds
  exits : ∀ b ∈ f.blocks, b.exit.Fits f kinds

/-! ### The check -/

theorem Draft.numbered_append (first : ValueId) (xs ys : List Ty) :
    numbered first (xs ++ ys) = numbered first xs ++ numbered (first + xs.length) ys := by
  induction xs generalizing first with
  | nil => rfl
  | cons x xs ih => simp [numbered, ih, Nat.add_assoc, Nat.add_comm 1]

theorem Draft.map_fst_numbered (first : ValueId) (types : List Ty) :
    (numbered first types).map Prod.fst = List.range' first types.length := by
  induction types generalizing first with
  | nil => rfl
  | cons type types ih => simp [numbered, ih, List.range'_succ]

theorem Draft.map_snd_numbered (first : ValueId) (types : List Ty) :
    (numbered first types).map Prod.snd = types := by
  induction types generalizing first with
  | nil => rfl
  | cons type types ih => simp [numbered, ih]

variable {width : AddressWidth} {kinds new more : List Kind} {code : List Statement}
  {blocks : List Block}

theorem lt_length_of_kind {x : Nat} {kind : Kind} (h : kinds[x]? = some kind) :
    x < kinds.length := (List.getElem?_eq_some_iff.mp h).1

/-- Values keep their kinds when more are defined. -/
theorem kind_append {x : Nat} {kind : Kind} (h : kinds[x]? = some kind) (new : List Kind) :
    (kinds ++ new)[x]? = some kind := by
  rw [List.getElem?_append_left (lt_length_of_kind h), h]

namespace Definition.Gives

variable {value : Definition} {kind : Kind}

theorem append (h : value.Gives width kinds kind) (new : List Kind) :
    value.Gives width (kinds ++ new) kind := by
  cases h with
  | const => exact .const
  | extend hw hx => exact .extend hw (kind_append hx new)
  | advance hx => exact .advance (kind_append hx new)
  | scale hx => exact .scale (kind_append hx new)
  | address hx hy => exact .address (kind_append hx new) (kind_append hy new)
  | operator hx hy => exact .operator (kind_append hx new) (kind_append hy new)
  | lessThan hx hy => exact .lessThan (kind_append hx new) (kind_append hy new)
  | load hp => exact .load (kind_append hp new)

theorem resultType_eq (h : value.Gives width kinds kind) :
    value.resultType = kind.type width := by
  cases h with
  | extend hw hx => rw [hw]; rfl
  | const | advance _ | scale _ | address _ _ | operator _ _ | lessThan _ _ | load _ => rfl

/-- The operands of a definition are defined before it. -/
theorem operand_lt (h : value.Gives width kinds kind) {x : Nat} (hx : x ∈ value.operands) :
    x < kinds.length := by
  cases h with
  | const => cases hx
  | extend _ hy | advance hy | scale hy | load hy =>
    obtain rfl := List.mem_singleton.mp hx
    exact lt_length_of_kind hy
  | address hy hz | operator hy hz | lessThan hy hz =>
    obtain rfl | hx := List.mem_cons.mp hx
    · exact lt_length_of_kind hy
    · obtain rfl := List.mem_singleton.mp hx
      exact lt_length_of_kind hz

end Definition.Gives

theorem Statement.Fits.append {s : Statement} (h : s.Fits width kinds) (new : List Kind) :
    s.Fits width (kinds ++ new) := by
  cases s with
  | define result value =>
    obtain ⟨kind, hresult, hvalue⟩ := h
    exact ⟨kind, kind_append hresult new, hvalue.append new⟩
  | store type value address =>
    obtain ⟨htype, hvalue, haddress⟩ := h
    exact ⟨htype, kind_append hvalue new, kind_append haddress new⟩

theorem filterMap_defined?_define (result : ValueId) (value : Definition)
    (rest : List Statement) :
    (.define result value :: rest).filterMap Statement.defined? =
      (result, value.resultType) :: rest.filterMap Statement.defined? := rfl

theorem filterMap_defined?_store (type : Ty) (value address : ValueId) (rest : List Statement) :
    (.store type value address :: rest).filterMap Statement.defined? =
      rest.filterMap Statement.defined? := rfl

/-- Statements that follow values of some kinds define values of new ones, each numbered next. -/
inductive Checked (width : AddressWidth) : List Kind → List Statement → List Kind → Prop
  | nil {kinds : List Kind} : Checked width kinds [] []
  | define {kinds new : List Kind} {value : Definition} {kind : Kind} {rest : List Statement} :
    value.Gives width kinds kind → Checked width (kinds ++ [kind]) rest new →
    Checked width kinds (.define kinds.length value :: rest) (kind :: new)
  | store {kinds new : List Kind} {x p : ValueId} {rest : List Statement} :
    kinds[x]? = some .data → kinds[p]? = some .address → Checked width kinds rest new →
    Checked width kinds (.store .i32 x p :: rest) new

namespace Checked

theorem single {value : Definition} {kind : Kind} {number : ValueId}
    (hn : number = kinds.length) (h : value.Gives width kinds kind) :
    Checked width kinds [.define number value] [kind] := by
  subst hn
  exact .define h .nil

theorem append {xs ys : List Statement} (h : Checked width kinds xs new)
    (h' : Checked width (kinds ++ new) ys more) : Checked width kinds (xs ++ ys) (new ++ more) := by
  induction h with
  | nil => simpa using h'
  | define hvalue _ ih => exact .define hvalue (ih (by simpa using h'))
  | store hx hp _ ih => exact .store hx hp (ih h')

/-- The values that are defined have consecutive numbers and the types of their kinds. -/
theorem defined_eq (h : Checked width kinds code new) :
    code.filterMap Statement.defined? =
      Draft.numbered kinds.length (new.map (Kind.type width)) := by
  induction h with
  | nil => rfl
  | define hvalue _ ih =>
    rw [filterMap_defined?_define, ih, hvalue.resultType_eq, List.length_append]
    rfl
  | store _ _ _ ih => rw [filterMap_defined?_store, ih]

/-- What is defined comes after the values before the code. -/
theorem le_of_mem_defined? (h : Checked width kinds code new) {s : Statement} (hs : s ∈ code)
    {d : ValueId × Ty} (hd : d ∈ s.defined?) : kinds.length ≤ d.1 := by
  have hmem : d ∈ code.filterMap Statement.defined? := List.mem_filterMap.mpr ⟨s, hs, hd⟩
  rw [h.defined_eq] at hmem
  have hnumber := List.mem_map_of_mem (f := Prod.fst) hmem
  rw [Draft.map_fst_numbered] at hnumber
  exact (List.mem_range'_1.mp hnumber).1

theorem fits (h : Checked width kinds code new) {s : Statement} (hs : s ∈ code) :
    s.Fits width (kinds ++ new) := by
  induction h with
  | nil => cases hs
  | @define kinds new value kind rest hvalue _ ih =>
    obtain rfl | hs := List.mem_cons.mp hs
    · exact ⟨kind, by simp, hvalue.append _⟩
    · simpa using ih hs
  | @store kinds new x p rest hx hp _ ih =>
    obtain rfl | hs := List.mem_cons.mp hs
    · exact ⟨rfl, kind_append hx new, kind_append hp new⟩
    · exact ih hs

/-- The operands of a statement are among the values before it. -/
theorem operand_lt (h : Checked width kinds code new) {position : Nat} {s : Statement}
    (hs : code[position]? = some s) {x : Nat} (hx : x ∈ s.operands) :
    x < kinds.length + ((code.take position).filterMap Statement.defined?).length := by
  induction h generalizing position with
  | nil => cases hs
  | define hvalue _ ih =>
    cases position with
    | zero =>
      cases hs
      exact hvalue.operand_lt hx
    | succ position =>
      have hlt := ih hs
      rw [List.length_append, List.length_singleton] at hlt
      rw [List.take_succ_cons, filterMap_defined?_define, List.length_cons]
      omega
  | store hy hp _ ih =>
    cases position with
    | zero =>
      cases hs
      obtain rfl | hx := List.mem_cons.mp hx
      · exact lt_length_of_kind hy
      · obtain rfl := List.mem_singleton.mp hx
        exact lt_length_of_kind hp
    | succ position =>
      rw [List.take_succ_cons, filterMap_defined?_store]
      exact ih hs

end Checked

/-- Blocks that follow values of some kinds define values of new ones, parameters first, and leave
with values that are known by then. -/
inductive CheckedBlocks (width : AddressWidth) : List Kind → List Block → List Kind → Prop
  | nil {kinds : List Kind} : CheckedBlocks width kinds [] []
  | cons {kinds params new more : List Kind} {b : Block} {rest : List Block} :
    b.params = Draft.numbered kinds.length (params.map (Kind.type width)) →
    Checked width (kinds ++ params) b.body new →
    (∀ x ∈ b.exit.operands, x < (kinds ++ params ++ new).length) →
    CheckedBlocks width (kinds ++ params ++ new) rest more →
    CheckedBlocks width kinds (b :: rest) (params ++ new ++ more)

namespace CheckedBlocks

theorem defined_eq (h : CheckedBlocks width kinds blocks new) :
    blocks.flatMap Block.defined = Draft.numbered kinds.length (new.map (Kind.type width)) := by
  induction h with
  | nil => rfl
  | cons hparams hbody _ _ ih =>
    rw [List.flatMap_cons, ih, Block.defined, hparams, hbody.defined_eq]
    simp [Draft.numbered_append, Nat.add_assoc]

theorem fits (h : CheckedBlocks width kinds blocks new) {b : Block} (hb : b ∈ blocks)
    {s : Statement} (hs : s ∈ b.body) : s.Fits width (kinds ++ new) := by
  induction h with
  | nil => cases hb
  | cons _ hbody _ _ ih =>
    obtain rfl | hb := List.mem_cons.mp hb
    · simpa using (hbody.fits hs).append _
    · simpa using ih hb

/-- Operands are among the values of the blocks before and those defined before in the block. -/
theorem operand_lt (h : CheckedBlocks width kinds blocks new) {block : Nat} {b : Block}
    (hb : blocks[block]? = some b) :
    (∀ (position : Nat) s, b.body[position]? = some s → ∀ x : Nat, x ∈ s.operands →
      x < kinds.length + ((blocks.take block).flatMap Block.defined).length +
        (b.definedBefore position).length) ∧
    ∀ x : Nat, x ∈ b.exit.operands →
      x < kinds.length + ((blocks.take block).flatMap Block.defined).length +
        (b.definedBefore b.body.length).length := by
  induction h generalizing block with
  | nil => cases hb
  | @cons kinds params new more b rest hparams hbody hexit _ ih =>
    cases block with
    | zero =>
      cases hb
      have hlength : ∀ position, kinds.length + ([].flatMap Block.defined).length +
          (b.definedBefore position).length = (kinds ++ params).length +
            ((b.body.take position).filterMap Statement.defined?).length := fun position => by
        rw [Block.definedBefore, List.length_append, hparams, Draft.length_numbered,
          List.length_map, List.length_append, List.flatMap_nil, List.length_nil]
        omega
      refine ⟨fun position s hs x hx => ?_, fun x hx => ?_⟩
      · rw [List.take_zero, hlength]
        exact hbody.operand_lt hs hx
      · rw [List.take_zero, hlength, List.take_length, hbody.defined_eq, Draft.length_numbered,
          List.length_map, ← List.length_append]
        exact hexit x hx
    | succ block =>
      have hlength : (kinds ++ params ++ new).length = kinds.length + b.defined.length := by
        rw [Block.defined, hparams, hbody.defined_eq]
        simp
      rw [hlength] at ih
      rw [List.take_succ_cons, List.flatMap_cons, List.length_append, ← Nat.add_assoc]
      exact ih hb

end CheckedBlocks

namespace Function

/-- What is defined up to a position of a block comes first among all that is defined. -/
theorem definedBefore_prefix (f : Function) {block : BlockId} {b : Block}
    (hb : f.blocks[block]? = some b) (position : Nat) :
    (f.blocks.take block).flatMap Block.defined ++ b.definedBefore position <+: f.defined := by
  obtain ⟨hlt, rfl⟩ := List.getElem?_eq_some_iff.mp hb
  have hsplit : f.blocks.take block ++ f.blocks[block] :: f.blocks.drop (block + 1) = f.blocks := by
    rw [← List.drop_eq_getElem_cons hlt, List.take_append_drop]
  have hdefined := congrArg (List.flatMap Block.defined) hsplit
  rw [List.flatMap_append, List.flatMap_cons] at hdefined
  have hhere : f.blocks[block].definedBefore position <+: f.blocks[block].defined :=
    ⟨(f.blocks[block].body.drop position).filterMap Statement.defined?, by
      rw [Block.definedBefore, Block.defined, List.append_assoc, ← List.filterMap_append,
        List.take_append_drop]⟩
  rw [defined, ← hdefined]
  exact (List.prefix_append_right_inj _).mpr (hhere.trans (List.prefix_append _ _))

variable {f : Function}

/-- A value that is defined in an earlier block or before a position of this one, by their count, is
so by dominance, if all earlier blocks dominate this one. -/
theorem dominatesUse_of_lt (hnumbers : f.defined.map Prod.fst = List.range f.defined.length)
    {block : BlockId} {b : Block} (hb : f.blocks[block]? = some b)
    (hdom : ∀ d < block, f.Dominates d block) {position : Nat} {x : Nat}
    (hx : x < ((f.blocks.take block).flatMap Block.defined).length +
      (b.definedBefore position).length) : f.DominatesUse x block position := by
  have hfirst := f.definedBefore_prefix hb position
  -- values are numbered as they are defined, so the first ones are those with small numbers
  have hmem : x ∈ ((f.blocks.take block).flatMap Block.defined ++
      b.definedBefore position).map Prod.fst := by
    rw [List.prefix_iff_eq_take.mp (hfirst.map Prod.fst), hnumbers, List.take_range,
      List.mem_range, List.length_map, Nat.min_eq_left hfirst.length_le, List.length_append]
    exact hx
  rw [List.map_append, List.mem_append] at hmem
  obtain hbefore | hhere := hmem
  · obtain ⟨p, hp, rfl⟩ := List.mem_map.mp hbefore
    obtain ⟨c, hc, hpc⟩ := List.mem_flatMap.mp hp
    obtain ⟨d, hd⟩ := List.mem_iff_getElem?.mp hc
    obtain ⟨hlt, hd⟩ : d < block ∧ f.blocks[d]? = some c := by
      rw [List.getElem?_take] at hd
      exact Option.ite_none_right_eq_some.mp hd
    refine ⟨d, c, hd, ?_⟩
    rw [if_neg (Nat.ne_of_lt hlt)]
    exact ⟨List.mem_map_of_mem hpc, hdom d hlt⟩
  · exact ⟨block, b, hb, by rwa [if_pos rfl]⟩

/-- A function whose blocks pass the check is well-formed. -/
theorem wellFormed_of_checked (h : CheckedBlocks width [] f.blocks kinds)
    (hdom : ∀ block b, f.blocks[block]? = some b →
      b = ⟨[], [], .leave⟩ ∨ ∀ d < block, f.Dominates d block)
    (hexits : ∀ b ∈ f.blocks, b.exit.Fits f kinds) : f.WellFormed width kinds := by
  have hdefined : f.defined = Draft.numbered 0 (kinds.map (Kind.type width)) := h.defined_eq
  have hnumbers : f.defined.map Prod.fst = List.range f.defined.length := by
    rw [hdefined, Draft.map_fst_numbered, Draft.length_numbered, List.range_eq_range']
  refine ⟨hnumbers, ?_, fun block b hb => ?_, fun b hb s hs => h.fits hb hs, hexits⟩
  · rw [hdefined, Draft.map_snd_numbered]
  · obtain rfl | hdom := hdom block b hb
    · constructor
      · intro position s hs
        cases hs
      · intro x hx
        cases hx
    · obtain ⟨hbody, hexit⟩ := h.operand_lt hb
      rw [List.length_nil, Nat.zero_add] at hbody hexit
      exact ⟨fun position s hs x hx =>
          dominatesUse_of_lt hnumbers hb hdom (hbody position s hs x hx),
        fun x hx => dominatesUse_of_lt hnumbers hb hdom (hexit x hx)⟩

end Function

end FusedKernel.Code
