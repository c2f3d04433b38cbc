import FusedKernel.Code.Basic

/-!
The text of code, as lines. An instruction shows the type of its operands after a dot, unless its
first operand is defined in the same block, where the type can be looked up. A line whose operands
include constants of the function ends with a comment that gives their values.
-/
namespace FusedKernel.Code

def valueText (x : ValueId) : String := "v" ++ toString x

def blockText (b : BlockId) : String := "block" ++ toString b

/-- Texts with a comma and a space between each two. -/
def commaSeparated (texts : List String) : String := String.intercalate ", " texts

/-- A list in parentheses, or nothing for the empty list. -/
def parenthesized : List String → String
  | [] => ""
  | texts => "(" ++ commaSeparated texts ++ ")"

/-- A value with its type. -/
def paramText (p : ValueId × Ty) : String := valueText p.1 ++ ": " ++ p.2.name

/-- The values of the constants among some operands, as a comment at the end of a line. -/
def constantNotes (constants : List (ValueId × Int)) (operands : List ValueId) : String :=
  match operands.flatMap fun x => constants.filter fun c => c.1 == x with
  | [] => ""
  | notes => "  ; " ++ commaSeparated (notes.map fun c => valueText c.1 ++ " = " ++ toString c.2)

namespace Block

/-- The mark of an instruction's type, which is left out if the block defines the first operand. -/
def typeMark (b : Block) (type : Ty) (first : ValueId) : String :=
  if b.defines first then "" else "." ++ type.name

def definitionText (b : Block) : Definition → String
  | .const type n => "iconst." ++ type.name ++ " " ++ toString n
  | .extend type x => "sextend." ++ type.name ++ " " ++ valueText x
  | .addImm type x n => "iadd_imm" ++ b.typeMark type x ++ " " ++ valueText x ++ ", " ++ toString n
  | .mulImm type x n => "imul_imm" ++ b.typeMark type x ++ " " ++ valueText x ++ ", " ++ toString n
  | .binary op type x y =>
    op.name ++ b.typeMark type x ++ " " ++ valueText x ++ ", " ++ valueText y
  | .lessThan type x y =>
    "icmp" ++ b.typeMark type x ++ " slt " ++ valueText x ++ ", " ++ valueText y
  | .load type address => "load." ++ type.name ++ " notrap aligned " ++ valueText address

def statementText (b : Block) : Statement → String
  | .define result value => valueText result ++ " = " ++ b.definitionText value
  | .store type value address =>
    "store" ++ b.typeMark type value ++ " notrap aligned " ++ valueText value ++ ", " ++
      valueText address

end Block

def Exit.text : Exit → String
  | jump target arguments =>
    "jump " ++ blockText target ++ parenthesized (arguments.map valueText)
  | branch condition ifTrue ifFalse =>
    "brif " ++ valueText condition ++ ", " ++ blockText ifTrue ++ ", " ++ blockText ifFalse
  | leave => "return"

/-- The lines of a block: its head, its statements and its exit, these indented by four. -/
def Block.lines (constants : List (ValueId × Int)) (id : BlockId) (b : Block) : List String :=
  (blockText id ++ parenthesized (b.params.map paramText) ++ ":") ::
    b.body.map (fun s => "    " ++ b.statementText s ++ constantNotes constants s.operands) ++
    ["    " ++ b.exit.text ++ constantNotes constants b.exit.operands]

/-- The lines of blocks with consecutive numbers, an empty line between each two. -/
def blockLines (constants : List (ValueId × Int)) : BlockId → List Block → List String
  | _, [] => []
  | id, [b] => b.lines constants id
  | id, b :: rest => b.lines constants id ++ "" :: blockLines constants (id + 1) rest

namespace Function

/-- The function's signature and calling convention. -/
def header (f : Function) : String :=
  "function u0:" ++ toString f.number ++ "(" ++ commaSeparated (f.signature.map Ty.name) ++
    ") system_v \x7b"

/-- The text of a function. -/
def lines (f : Function) : List String :=
  f.header :: blockLines f.constants 0 f.blocks ++ ["\x7d"]

end Function

end FusedKernel.Code
