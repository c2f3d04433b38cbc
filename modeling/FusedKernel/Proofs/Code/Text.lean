import Mathlib.Data.List.Forall2
import Mathlib.Tactic.Common
import FusedKernel.Code.Printer
import FusedKernel.Proofs.Text.Numerals

/-! What the text of code shows. Only types can be missing from it: a text determines, of every
statement, the value that it defines, its operation and its operands in order. Texts are split where
the characters of a number, a word or an operation's name end, and lines are split into blocks at
the empty ones. -/
namespace FusedKernel.Code

open Text

/-! ### Operands -/

/-- What a statement's text has after its operation: values, and constants written out. -/
inductive Operand
  | value (x : ValueId)
  | number (n : Int)
  deriving DecidableEq, Repr

namespace Operand

def text : Operand → String
  | value x => valueText x
  | number n => toString n

/-- What an operand's text has before the digits. -/
def sign : Operand → List Char
  | value _ => ['v']
  | number (.ofNat _) => []
  | number (.negSucc _) => ['-']

/-- The number that an operand's digits make up. -/
def magnitude : Operand → Nat
  | value x => x
  | number n => n.natAbs

theorem toList_text (x : Operand) : x.text.toList = x.sign ++ Nat.toDigits 10 x.magnitude := by
  rcases x with x | n | n
  · simp [text, valueText, sign, magnitude]
  · exact Nat.toList_repr
  · have h : (number (.negSucc n)).text = "-" ++ (n + 1).repr := rfl
    rw [h, String.toList_append, Nat.toList_repr]
    rfl

theorem eq_of_sign_of_magnitude {x y : Operand} (hs : x.sign = y.sign)
    (hm : x.magnitude = y.magnitude) : x = y := by
  rcases x with x | m | m <;> rcases y with y | n | n <;> simp_all [sign, magnitude]

theorem isDigit_of_mem_sign {x : Operand} {c : Char} (hc : c ∈ x.sign) : !c.isDigit := by
  rcases x with x | n | n
  · obtain rfl := List.mem_singleton.mp hc
    rfl
  · cases hc
  · obtain rfl := List.mem_singleton.mp hc
    rfl

variable {s t : List Char} (hs : s.takeWhile Char.isDigit = []) (ht : t.takeWhile Char.isDigit = [])

include hs ht

theorem text_append_inj {x y : Operand} (h : x.text.toList ++ s = y.text.toList ++ t) :
    x = y ∧ s = t := by
  rw [toList_text, toList_text, List.append_assoc, List.append_assoc] at h
  obtain ⟨hsign, hdigits⟩ := append_inj_of_takeWhile (fun _ => isDigit_of_mem_sign)
    (fun _ => isDigit_of_mem_sign) (takeWhile_digits ..) (takeWhile_digits ..) h
  obtain ⟨hmagnitude, hrest⟩ := digits_append_inj hs ht hdigits
  exact ⟨eq_of_sign_of_magnitude hsign hmagnitude, hrest⟩

/-- As many operands with commas between them are told apart. -/
theorem texts_append_inj {xs ys : List Operand} (hlength : xs.length = ys.length)
    (h : (commaSeparated (xs.map text)).toList ++ s = (commaSeparated (ys.map text)).toList ++ t) :
    xs = ys ∧ s = t := by
  induction xs generalizing ys with
  | nil =>
    obtain rfl := List.length_eq_zero_iff.mp hlength.symm
    exact ⟨rfl, List.append_cancel_left h⟩
  | cons x xs ih =>
    obtain ⟨y, ys, rfl⟩ := List.exists_cons_of_length_eq_add_one hlength.symm
    have hrest : xs.length = ys.length := Nat.succ.inj hlength
    rcases xs with _ | ⟨x', xs⟩
    · obtain rfl := List.length_eq_zero_iff.mp hrest.symm
      obtain ⟨rfl, hst⟩ := text_append_inj hs ht h
      exact ⟨rfl, hst⟩
    · obtain ⟨y', ys, rfl⟩ := List.exists_cons_of_length_eq_add_one hrest.symm
      simp only [List.map_cons, commaSeparated, String.intercalate_cons_cons, String.toList_append,
        List.append_assoc] at h
      -- the first operand is followed by a comma
      obtain ⟨rfl, hnext⟩ := text_append_inj rfl rfl h
      obtain ⟨htail, hst⟩ := ih hrest (List.append_cancel_left hnext)
      exact ⟨by rw [htail], hst⟩

end Operand

/-! ### Statements -/

/-- The operation of a statement, which has a name of its own. -/
inductive Opcode
  | const
  | extend
  | addImm
  | mulImm
  | binary (op : BinaryOp)
  | lessThan
  | load
  | store
  deriving DecidableEq, Repr

namespace Opcode

def name : Opcode → String
  | const => "iconst"
  | extend => "sextend"
  | addImm => "iadd_imm"
  | mulImm => "imul_imm"
  | binary op => op.name
  | lessThan => "icmp"
  | load => "load"
  | store => "store"

/-- What a text has between the name and the operands. -/
def qualifier : Opcode → String
  | lessThan => "slt "
  | load | store => "notrap aligned "
  | _ => ""

/-- The number of operands that are written out. -/
def arity : Opcode → Nat
  | const | extend | load => 1
  | _ => 2

def all : List Opcode :=
  [const, extend, addImm, mulImm, binary .iadd, binary .isub, binary .imul, binary .sdiv,
    binary .srem, lessThan, load, store]

/-- The operation of a name. -/
def ofName? (s : String) : Option Opcode := all.find? fun op => op.name == s

theorem ofName?_name (op : Opcode) : ofName? op.name = some op := by
  rcases op with _ | _ | _ | _ | (_ | _ | _ | _ | _) | _ | _ | _ <;> decide

theorem name_injective {op op' : Opcode} (h : op.name = op'.name) : op = op' :=
  Option.some.inj (by rw [← ofName?_name, h, ofName?_name])

/-- Names have neither spaces nor dots. -/
theorem ne_of_mem_name {op : Opcode} {c : Char} (hc : c ∈ op.name.toList) : c ≠ ' ' ∧ c ≠ '.' := by
  have h : ∀ c ∈ op.name.toList, c ≠ ' ' ∧ c ≠ '.' := by
    rcases op with _ | _ | _ | _ | (_ | _ | _ | _ | _) | _ | _ | _ <;> simp [name, BinaryOp.name]
  exact h c hc

/-- No name starts as a value does. -/
theorem name_append_ne (op : Opcode) (s t : List Char) : op.name.toList ++ s ≠ 'v' :: t := by
  rcases op with _ | _ | _ | _ | (_ | _ | _ | _ | _) | _ | _ | _ <;> simp [name, BinaryOp.name]

end Opcode

def Definition.opcode : Definition → Opcode
  | const _ _ => .const
  | extend _ _ => .extend
  | addImm _ _ _ => .addImm
  | mulImm _ _ _ => .mulImm
  | binary op _ _ _ => .binary op
  | lessThan _ _ _ => .lessThan
  | load _ _ => .load

/-- The operands as they are written, constants included. -/
def Definition.written : Definition → List Operand
  | const _ n => [.number n]
  | extend _ x | load _ x => [.value x]
  | addImm _ x n | mulImm _ x n => [.value x, .number n]
  | binary _ _ x y | lessThan _ x y => [.value x, .value y]

/-- What the text of a statement shows, whether or not it shows a type. -/
@[ext] structure Shown where
  result : Option ValueId
  opcode : Opcode
  operands : List Operand
  deriving DecidableEq, Repr

def Statement.shown : Statement → Shown
  | define result value => ⟨some result, value.opcode, value.written⟩
  | store _ value address => ⟨none, .store, [.value value, .value address]⟩

namespace Shown

variable (s : Shown)

/-- The text before the operation: the result and the sign of its definition, if there is one. -/
def lead : List Char := s.result.elim [] fun x => (valueText x ++ " = ").toList

/-- The text after the operation and the mark of its type. -/
def rest : List Char :=
  (s.opcode.qualifier ++ commaSeparated (s.operands.map Operand.text)).toList

end Shown

namespace Block

/-- The mark of the type in a statement's text, which may be left out. -/
def mark (b : Block) : Statement → String
  | .define _ (.const type _) | .define _ (.extend type _) | .define _ (.load type _) =>
    "." ++ type.name
  | .define _ (.addImm type x _) | .define _ (.mulImm type x _) | .define _ (.binary _ type x _)
  | .define _ (.lessThan type x _) | .store type x _ => b.typeMark type x

theorem typeMark_eq (b : Block) (type : Ty) (x : ValueId) :
    b.typeMark type x = "" ∨ b.typeMark type x = "." ++ type.name := by
  unfold typeMark
  split
  · exact .inl rfl
  · exact .inr rfl

theorem mark_eq (b : Block) (s : Statement) :
    b.mark s = "" ∨ ∃ type : Ty, b.mark s = "." ++ type.name := by
  cases s with
  | store type x _ => exact (b.typeMark_eq type x).imp_right fun h => ⟨type, h⟩
  | define result value =>
    cases value with
    | const type _ | extend type _ | load type _ => exact .inr ⟨type, rfl⟩
    | addImm type x _ | mulImm type x _ | binary _ type x _ | lessThan type x _ =>
      exact (b.typeMark_eq type x).imp_right fun h => ⟨type, h⟩

theorem ne_of_mem_mark {b : Block} {s : Statement} {c : Char} (hc : c ∈ (b.mark s).toList) :
    c ≠ ' ' := by
  have h : ∀ type : Ty, ∀ c ∈ ("." ++ type.name).toList, c ≠ ' ' := by
    intro type
    cases type <;> simp [Ty.name]
  obtain hmark | ⟨type, hmark⟩ := b.mark_eq s <;> rw [hmark] at hc
  · cases hc
  · exact h type c hc

theorem takeWhile_mark (b : Block) (s : Statement) :
    (b.mark s).toList.takeWhile (· != '.') = [] := by
  obtain hmark | ⟨type, hmark⟩ := b.mark_eq s <;> rw [hmark]
  · rfl
  · rw [String.toList_append]
    rfl

/-- The parts of a statement's text. -/
theorem toList_statementText (b : Block) (s : Statement) :
    (b.statementText s).toList =
      s.shown.lead ++ (s.shown.opcode.name.toList ++ (b.mark s).toList ++ ' ' :: s.shown.rest) := by
  rcases s with ⟨result, value⟩ | ⟨type, x, p⟩
  · cases value <;>
      simp [statementText, definitionText, Statement.shown, Shown.lead, Shown.rest, mark,
        Definition.opcode, Definition.written, Opcode.name, Opcode.qualifier, commaSeparated,
        Operand.text]
  · simp [statementText, Statement.shown, Shown.lead, Shown.rest, mark, Opcode.name,
      Opcode.qualifier, commaSeparated, Operand.text]

end Block

theorem Shown.lead_append_inj {s s' : Shown} {t t' : List Char}
    (h : s.lead ++ (s.opcode.name.toList ++ t) = s'.lead ++ (s'.opcode.name.toList ++ t')) :
    s.result = s'.result ∧ s.opcode.name.toList ++ t = s'.opcode.name.toList ++ t' := by
  obtain ⟨_ | x, op, xs⟩ := s <;> obtain ⟨_ | y, op', ys⟩ := s' <;>
    simp only [lead, Option.elim_none, Option.elim_some, valueText, String.toList_append,
      List.nil_append, List.append_assoc, Nat.toString_eq_repr, Nat.toList_repr] at h
  · exact ⟨rfl, h⟩
  · exact absurd h (op.name_append_ne _ _)
  · exact absurd h.symm (op'.name_append_ne _ _)
  · obtain ⟨rfl, hrest⟩ := digits_append_inj rfl rfl (List.append_cancel_left h)
    exact ⟨rfl, List.append_cancel_left hrest⟩

theorem Statement.length_operands_shown (s : Statement) :
    s.shown.operands.length = s.shown.opcode.arity := by
  rcases s with ⟨result, _ | _ | _ | _ | _ | _ | _⟩ | _ <;> rfl

theorem opcode_append_inj {b b' : Block} {s s' : Statement} {t t' : List Char}
    (h : s.shown.opcode.name.toList ++ (b.mark s).toList ++ ' ' :: t =
      s'.shown.opcode.name.toList ++ (b'.mark s').toList ++ ' ' :: t') :
    s.shown.opcode = s'.shown.opcode ∧ t = t' := by
  have hword : ∀ (b : Block) (s : Statement),
      ∀ c ∈ s.shown.opcode.name.toList ++ (b.mark s).toList, c != ' ' := fun b s c hc =>
    bne_iff_ne.mpr <| (List.mem_append.mp hc).elim (fun hc => (Opcode.ne_of_mem_name hc).1)
      Block.ne_of_mem_mark
  have hname : ∀ op : Opcode, ∀ c ∈ op.name.toList, c != '.' := fun op c hc =>
    bne_iff_ne.mpr (Opcode.ne_of_mem_name hc).2
  -- the word ends at the first space, and in it the name at the first dot
  obtain ⟨hfirst, hrest⟩ := append_inj_of_takeWhile (hword b s) (hword b' s') rfl rfl h
  obtain ⟨hopcode, -⟩ := append_inj_of_takeWhile (hname _) (hname _) (b.takeWhile_mark s)
    (b'.takeWhile_mark s') hfirst
  exact ⟨Opcode.name_injective (String.toList_inj.mp hopcode), (List.cons.inj hrest).2⟩

/-- A text that starts with a statement determines what it shows. -/
theorem shown_eq_of_text {b b' : Block} {s s' : Statement} {t t' : List Char}
    (ht : t.takeWhile Char.isDigit = []) (ht' : t'.takeWhile Char.isDigit = [])
    (h : (b.statementText s).toList ++ t = (b'.statementText s').toList ++ t') :
    s.shown = s'.shown := by
  simp only [Block.toList_statementText, List.append_assoc] at h
  obtain ⟨hresult, h⟩ := Shown.lead_append_inj h
  simp only [← List.append_assoc, List.cons_append] at h
  obtain ⟨hopcode, h⟩ := opcode_append_inj h
  simp only [Shown.rest, hopcode, String.toList_append, List.append_assoc] at h
  have hlength : s.shown.operands.length = s'.shown.operands.length := by
    rw [s.length_operands_shown, s'.length_operands_shown, hopcode]
  obtain ⟨hoperands, -⟩ := Operand.texts_append_inj ht ht' hlength (List.append_cancel_left h)
  exact Shown.ext hresult hopcode hoperands

/-! ### Lines -/

theorem takeWhile_constantNotes (constants : List (ValueId × Int)) (operands : List ValueId) :
    (constantNotes constants operands).toList.takeWhile Char.isDigit = [] := by
  unfold constantNotes
  split
  · rfl
  · simp only [String.toList_append]
    rfl

/-- What the statements of a block show. -/
def Block.shown (b : Block) : List Shown := b.body.map Statement.shown

section Lines

variable {constants constants' : List (ValueId × Int)} {id id' : BlockId}

/-- Lists whose images under two functions are equal have equal images under a third. -/
theorem map_eq_of_map_eq {α β γ : Type} {f g : α → β} {k : α → γ} {xs ys : List α}
    (hk : ∀ x y, f x = g y → k x = k y) (h : xs.map f = ys.map g) : xs.map k = ys.map k := by
  rw [← List.forall₂_eq_eq_eq, List.forall₂_map_left_iff, List.forall₂_map_right_iff] at h ⊢
  exact h.imp hk

theorem shown_eq_of_lines {b b' : Block} (h : b.lines constants id = b'.lines constants' id') :
    b.shown = b'.shown := by
  obtain ⟨hbody, -⟩ := List.append_inj' (List.cons.inj h).2 rfl
  refine map_eq_of_map_eq (fun s s' hline => ?_) hbody
  have htext := congrArg String.toList hline
  simp only [String.toList_append, List.append_assoc] at htext
  exact shown_eq_of_text (takeWhile_constantNotes ..) (takeWhile_constantNotes ..)
    (List.append_cancel_left htext)

theorem ne_empty_of_mem_lines {b : Block} {line : String} (h : line ∈ b.lines constants id) :
    line ≠ "" := by
  obtain h | h := List.mem_append.mp h
  · obtain rfl | h := List.mem_cons.mp h
    · simp
    · obtain ⟨s, -, rfl⟩ := List.mem_map.mp h
      simp
  · obtain rfl := List.mem_singleton.mp h
    simp

/-- The lines of blocks that come after another, with an empty one before them. -/
def furtherLines (constants : List (ValueId × Int)) (id : BlockId) : List Block → List String
  | [] => []
  | b :: rest => "" :: blockLines constants id (b :: rest)

theorem blockLines_cons (b : Block) (rest : List Block) :
    blockLines constants id (b :: rest) =
      b.lines constants id ++ furtherLines constants (id + 1) rest := by
  cases rest with
  | nil => exact (List.append_nil _).symm
  | cons c rest => rfl

theorem takeWhile_furtherLines (rest : List Block) :
    (furtherLines constants id rest).takeWhile (· != "") = [] := by
  cases rest <;> rfl

/-- The lines of blocks determine what each of them shows. -/
theorem shown_eq_of_blockLines {blocks blocks' : List Block}
    (h : blockLines constants id blocks = blockLines constants' id' blocks') :
    blocks.map Block.shown = blocks'.map Block.shown := by
  induction blocks generalizing id id' blocks' with
  | nil =>
    cases blocks' with
    | nil => rfl
    | cons b' rest' =>
      rw [blockLines_cons] at h
      cases h
  | cons b rest ih =>
    cases blocks' with
    | nil =>
      rw [blockLines_cons] at h
      cases h
    | cons b' rest' =>
      rw [blockLines_cons, blockLines_cons] at h
      -- no line of a block is empty, so the first block ends at the first empty line
      obtain ⟨hfirst, hrest⟩ := append_inj_of_takeWhile
        (fun _ hline => bne_iff_ne.mpr (ne_empty_of_mem_lines hline))
        (fun _ hline => bne_iff_ne.mpr (ne_empty_of_mem_lines hline))
        (takeWhile_furtherLines rest) (takeWhile_furtherLines rest') h
      have hblocks :
          blockLines constants (id + 1) rest = blockLines constants' (id' + 1) rest' := by
        cases rest with
        | nil =>
          cases rest' with
          | nil => rfl
          | cons c' rest' => cases hrest
        | cons c rest =>
          cases rest' with
          | nil => cases hrest
          | cons c' rest' => exact (List.cons.inj hrest).2
      rw [List.map_cons, List.map_cons, shown_eq_of_lines hfirst, ih hblocks]

end Lines

/-- The text of a function determines its number and what its blocks show. -/
theorem Function.shown_eq_of_lines {f g : Function} (h : f.lines = g.lines) :
    f.number = g.number ∧ f.blocks.map Block.shown = g.blocks.map Block.shown := by
  obtain ⟨hheader, hlines⟩ := List.cons.inj h
  obtain ⟨hblocks, -⟩ := List.append_inj' hlines rfl
  refine ⟨?_, shown_eq_of_blockLines hblocks⟩
  have htext := congrArg String.toList hheader
  simp only [header, String.toList_append, List.append_assoc, Nat.toString_eq_repr,
    Nat.toList_repr, -String.reduceToList] at htext
  exact (digits_append_inj rfl rfl (List.append_cancel_left htext)).1

end FusedKernel.Code
