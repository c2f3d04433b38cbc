import FusedKernel.Console.Line

/-! What the console prints for events. An event travels as a record of fields of several kinds,
from which the line is put together again; in the end it tells of the event's own data, unaltered.
-/
namespace FusedKernel.Console

/-- What a line of the console tells. -/
inductive Notice
  | compiled (name first second : String)
  | duplicate (name : String)
  | linked (count : Nat)
  | resolved (name : String)
  deriving DecidableEq, Repr

namespace Notice

/-- The line, with its end. -/
def text : Notice → String
  | compiled name first second =>
    gray "T" ++ " " ++ colored 94 "DEBUG" ++ " " ++ cyan "[compile]" ++ " " ++
      (bold (white name) ++ " = (a " ++ yellow first ++ " b) " ++ yellow second ++ " c") ++ "\n"
  | duplicate name =>
    gray "T" ++ " " ++ colored 93 "WARN" ++ " " ++ cyan "[compile]" ++ " " ++
      ("symbol " ++ bold (white name) ++ " already defined") ++ "\n"
  | linked count =>
    gray "T" ++ " " ++ colored 92 "INFO" ++ " " ++ cyan "[link]" ++ " " ++
      ("linked " ++ colored 95 (toString count) ++ " kernel(s)") ++ "\n"
  | resolved name =>
    gray "T" ++ " " ++ gray "TRACE" ++ " " ++ cyan "[resolve]" ++ " " ++ white name ++ "\n"

/-- Whether a line is of level `info` or graver. -/
def isGrave : Notice → Bool
  | duplicate _ | linked _ => true
  | compiled _ _ _ | resolved _ => false

/-- The name in a line about a compiled kernel. -/
def compiledName? : Notice → Option String
  | compiled name _ _ => some name
  | duplicate _ | linked _ | resolved _ => none

end Notice

/-- What should be told of an event. -/
def Event.notice : Event → Notice
  | compiled name ops => .compiled name ops.first.symbol ops.second.symbol
  | duplicate name => .duplicate name
  | linked count => .linked count
  | resolved name => .resolved name

/-- Symbols have no quotes at their ends to lose. -/
theorem unquoted_symbol (op : Operator) : Shown.unquoted op.symbol = op.symbol := by
  cases op <;> rfl

theorem text_ofFields_record (e : Event) :
    (Shown.ofFields e.record.fields).text = e.notice.text := by
  cases e with
  | compiled name ops =>
    have hshown : Shown.ofFields (Event.compiled name ops).record.fields =
        { event := some "kernel_compiled", name := some name
          op1 := some (Shown.unquoted ops.first.symbol)
          op2 := some (Shown.unquoted ops.second.symbol) } := rfl
    rw [hshown, unquoted_symbol, unquoted_symbol]
    rfl
  | duplicate name | linked count | resolved name => rfl

theorem print_record (mode : Mode) (e : Event) :
    mode.print e.record = if mode.lets e.level then e.notice.text else "" := by
  have htarget : "kernjit".toList.isPrefixOf e.record.target.toList = true := by
    rw [List.isPrefixOf_iff_prefix]
    exact List.prefix_refl _
  rw [Mode.print, htarget, Bool.and_true, text_ofFields_record]
  rfl

theorem lets_init_level (e : Event) : Mode.init.lets e.level = e.notice.isGrave := by
  cases e <;> rfl

theorem printAll_layer (events : List Event) :
    Mode.layer.printAll events = String.join ((events.map Event.notice).map Notice.text) := by
  simp only [Mode.printAll, print_record, Mode.lets, if_true, List.map_map]
  rfl

theorem printAll_init (events : List Event) :
    Mode.init.printAll events =
      String.join (((events.map Event.notice).filter Notice.isGrave).map Notice.text) := by
  simp only [Mode.printAll, print_record, lets_init_level]
  induction events with
  | nil => rfl
  | cons e rest ih =>
    cases hg : e.notice.isGrave with
    | true => simp [hg, ih]
    | false => simp [hg, ih]

end FusedKernel.Console
