import Mathlib.Data.List.Induction
import FusedKernel.Proofs.Console.Notice
import FusedKernel.Proofs.Text.Numerals

/-! What the console prints for records of any fields, in any order, and how that is read back. For
each key only the last value counts that can be stored under it. The codes of a line cut it into
pieces, in each of which at most one shown field stands, behind a fixed front; so a line without
further codes tells its kind and its fields. -/
namespace FusedKernel.Console

/-! ### Last values -/

/-- The text that a value stores: itself, or a description without the quotes at its ends. -/
def FieldValue.text? : FieldValue → Option String
  | text s => some s
  | described description => some (Shown.unquoted description)
  | count _ => none

/-- The number that a value stores as a count. -/
def FieldValue.count? : FieldValue → Option Nat
  | count n => some n
  | text _ | described _ => none

section
variable {α : Type}

/-- What a field stores under a key. -/
def Field.stored? (f : Field) (key : String) (read : FieldValue → Option α) : Option α :=
  if f.key = key then read f.value else none

theorem Field.stored?_or (f : Field) (key : String) (read : FieldValue → Option α) (o : Option α) :
    (f.stored? key read).or o = if f.key = key then (read f.value).or o else o := by
  rw [stored?]
  split <;> rfl

/-- What is stored under a key after some fields: what the last of them stores that stores
anything. -/
def lastStored? (fields : List Field) (key : String) (read : FieldValue → Option α) : Option α :=
  fields.reverse.findSome? fun f => f.stored? key read

theorem lastStored?_concat (fields : List Field) (f : Field) (key : String)
    (read : FieldValue → Option α) :
    lastStored? (fields ++ [f]) key read =
      (f.stored? key read).or (lastStored? fields key read) := by
  rw [lastStored?, List.reverse_concat, List.findSome?_cons]
  cases f.stored? key read <;> rfl

end

namespace Shown

theorem putText_eq (s : Shown) (key text : String) :
    s.putText key text =
      { s with
        event := if key = "event" then some text else s.event
        name := if key = "name" then some text else s.name
        op1 := if key = "op1" then some text else s.op1
        op2 := if key = "op2" then some text else s.op2 } := by
  unfold putText
  split <;> simp_all

theorem put_eq (s : Shown) (f : Field) :
    s.put f =
      { event := (f.stored? "event" FieldValue.text?).or s.event
        name := (f.stored? "name" FieldValue.text?).or s.name
        op1 := (f.stored? "op1" FieldValue.text?).or s.op1
        op2 := (f.stored? "op2" FieldValue.text?).or s.op2
        count := (f.stored? "kernel_count" FieldValue.count?).or s.count } := by
  obtain ⟨key, value⟩ := f
  simp only [Field.stored?_or]
  cases value with
  | text t => simp [put, putText_eq, FieldValue.text?, FieldValue.count?]
  | described d => simp [put, putText_eq, FieldValue.text?, FieldValue.count?]
  | count n =>
    simp only [put, FieldValue.text?, FieldValue.count?, Option.none_or, ite_self, Option.some_or]
    split <;> rfl

/-- The fields that can be shown are the last that were stored. -/
theorem ofFields_eq (fields : List Field) :
    ofFields fields =
      { event := lastStored? fields "event" FieldValue.text?
        name := lastStored? fields "name" FieldValue.text?
        op1 := lastStored? fields "op1" FieldValue.text?
        op2 := lastStored? fields "op2" FieldValue.text?
        count := lastStored? fields "kernel_count" FieldValue.count? } := by
  induction fields using List.reverseRecOn with
  | nil => rfl
  | append_singleton fields f ih =>
    rw [ofFields, List.foldl_append, ← ofFields, ih]
    simp only [List.foldl_cons, List.foldl_nil, put_eq, lastStored?_concat]

end Shown

/-! ### Records of a kind -/

/-- The text of the field `event` that stands for a kind. -/
def Kind.name : Kind → String
  | compiled => "kernel_compiled"
  | linked => "unit_finalized"
  | resolved => "symbol_resolved"
  | duplicate => "duplicate_symbol"

theorem Kind.ofName?_name (kind : Kind) : ofName? kind.name = some kind := by
  cases kind <;> rfl

namespace Record

/-- Records that the compiler sends of a kind of event. -/
structure IsOf (r : Record) (kind : Kind) : Prop where
  target : "kernjit".toList <+: r.target.toList
  event : lastStored? r.fields "event" FieldValue.text? = some kind.name

/-- The text that is shown for a field. -/
def shown (r : Record) (key : String) : String :=
  (lastStored? r.fields key FieldValue.text?).getD "?"

/-- What is told of a record of a kind: the fields that belong to the kind. -/
def notice (r : Record) : Kind → Notice
  | .compiled => .compiled (r.shown "name") (r.shown "op1") (r.shown "op2")
  | .linked => .linked ((lastStored? r.fields "kernel_count" FieldValue.count?).getD 0)
  | .resolved => .resolved (r.shown "name")
  | .duplicate => .duplicate (r.shown "name")

theorem IsOf.print_layer {r : Record} {kind : Kind} (h : r.IsOf kind) :
    Mode.layer.print r = (r.notice kind).text := by
  rw [Mode.print, List.isPrefixOf_iff_prefix.mpr h.target, Shown.text, Shown.ofFields_eq, h.event,
    Option.bind_some, kind.ofName?_name]
  cases kind <;> rfl

end Record

/-! ### Pieces of a line -/

namespace Notice

/-- The texts that a notice tells. -/
def texts : Notice → List String
  | compiled name first second => [name, first, second]
  | duplicate name | resolved name => [name]
  | linked _ => []

/-- Notices whose texts hold neither the start of a code nor the end of a line. -/
def IsPlain (n : Notice) : Prop := ∀ t ∈ n.texts, '\x1b' ∉ t.toList ∧ '\n' ∉ t.toList

/-- The pieces at the front of a line: the time, the level and the activity, each behind the code
that turns its colour on, with the codes that turn it off again. -/
def front (level activity : String) : List String :=
  ["", "[90mT", "[39m ", level, "[39m ", activity]

/-- The pieces into which the starts of codes cut a line. -/
def pieces : Notice → List String
  | compiled name first second =>
    front "[94mDEBUG" "[96m[compile]" ++ ["[39m ", "[1m", "[37m" ++ name, "[39m", "[0m = (a ",
      "[33m" ++ first, "[39m b) ", "[33m" ++ second, "[39m c\n"]
  | duplicate name =>
    front "[93mWARN" "[96m[compile]" ++ ["[39m symbol ", "[1m", "[37m" ++ name, "[39m",
      "[0m already defined\n"]
  | linked count =>
    front "[92mINFO" "[96m[link]" ++ ["[39m linked ", "[95m" ++ toString count,
      "[39m kernel(s)\n"]
  | resolved name =>
    front "[90mTRACE" "[96m[resolve]" ++ ["[39m ", "[37m" ++ name, "[39m\n"]

theorem toList_text (n : Notice) :
    n.text.toList = ['\x1b'].intercalate (n.pieces.map String.toList) := by
  have hcodes : Nat.toDigits 10 33 = ['3', '3'] ∧ Nat.toDigits 10 37 = ['3', '7'] ∧
      Nat.toDigits 10 90 = ['9', '0'] ∧ Nat.toDigits 10 92 = ['9', '2'] ∧
      Nat.toDigits 10 93 = ['9', '3'] ∧ Nat.toDigits 10 94 = ['9', '4'] ∧
      Nat.toDigits 10 95 = ['9', '5'] ∧ Nat.toDigits 10 96 = ['9', '6'] := by decide
  cases n <;> simp [text, pieces, front, gray, cyan, white, yellow, colored, bold, hcodes,
    List.intercalate]

theorem pieces_injective : Function.Injective pieces := by
  intro m n h
  cases m with
  | compiled name first second =>
    cases n with
    | compiled name' first' second' => simpa [pieces, front] using h
    | duplicate _ | linked _ | resolved _ => simp [pieces, front] at h
  | duplicate name =>
    cases n with
    | duplicate name' => simpa [pieces, front] using h
    | compiled _ _ _ | linked _ | resolved _ => simp [pieces, front] at h
  | linked count =>
    cases n with
    | linked count' => simpa [pieces, front, Text.repr_inj] using h
    | compiled _ _ _ | duplicate _ | resolved _ => simp [pieces, front] at h
  | resolved name =>
    cases n with
    | resolved name' => simpa [pieces, front] using h
    | compiled _ _ _ | duplicate _ | linked _ => simp [pieces, front] at h

variable {m n : Notice}

theorem not_mem_pieces (h : n.IsPlain) : ∀ p ∈ n.pieces, '\x1b' ∉ p.toList := by
  cases n with
  | compiled name first second =>
    obtain ⟨hname, h⟩ := List.forall_mem_cons.mp h
    obtain ⟨hfirst, h⟩ := List.forall_mem_cons.mp h
    have hsecond := List.forall_mem_singleton.mp h
    simp [pieces, front, hname.1, hfirst.1, hsecond.1]
  | duplicate name | resolved name =>
    have hname := List.forall_mem_singleton.mp h
    simp [pieces, front, hname.1]
  | linked count => simp [pieces, front, Text.not_mem_digits]

theorem splitOn_text (h : n.IsPlain) :
    n.text.toList.splitOn '\x1b' = n.pieces.map String.toList := by
  rw [toList_text]
  refine List.splitOn_intercalate _ (List.forall_mem_map.mpr (not_mem_pieces h)) ?_
  cases n <;> simp [pieces, front]

/-- Lines without further codes tell their notices. -/
theorem text_eq_iff (hm : m.IsPlain) (hn : n.IsPlain) : m.text = n.text ↔ m = n := by
  refine ⟨fun h => pieces_injective ?_, fun h => h ▸ rfl⟩
  have hpieces : m.pieces.map String.toList = n.pieces.map String.toList := by
    rw [← splitOn_text hm, ← splitOn_text hn, h]
  exact (List.map_inj_right fun _ _ => String.toList_inj.mp).mp hpieces

/-- The text of a notice is one line with its end. -/
theorem exists_line (h : n.IsPlain) : ∃ line, n.text = line ++ "\n" ∧ '\n' ∉ line.toList := by
  cases n with
  | compiled name first second =>
    obtain ⟨hname, h⟩ := List.forall_mem_cons.mp h
    obtain ⟨hfirst, h⟩ := List.forall_mem_cons.mp h
    have hsecond := List.forall_mem_singleton.mp h
    refine ⟨_, rfl, ?_⟩
    simp [gray, cyan, white, yellow, colored, bold, Text.not_mem_digits, hname.2, hfirst.2,
      hsecond.2]
  | duplicate name | resolved name =>
    have hname := List.forall_mem_singleton.mp h
    refine ⟨_, rfl, ?_⟩
    simp [gray, cyan, white, colored, bold, Text.not_mem_digits, hname.2]
  | linked count =>
    refine ⟨_, rfl, ?_⟩
    simp [gray, cyan, colored, Text.not_mem_digits]

end Notice

/-- Lines decode uniquely. A record that is printed, because it is the compiler's and its event is
of a known kind, is printed as one line, and two of them as equal lines exactly if they are of one
kind and show the same for each field of that kind: the text that was stored last, or the number, or
what stands for a field that never was. Which fields there are, how often each and in what order,
and what they had stored before, does not show. The texts that are shown must be without codes and
ends of lines of their own. -/
theorem print_layer_eq_iff {r r' : Record} {kind kind' : Kind} (h : r.IsOf kind)
    (h' : r'.IsOf kind') (hplain : (r.notice kind).IsPlain) (hplain' : (r'.notice kind').IsPlain) :
    (∃ line, Mode.layer.print r = line ++ "\n" ∧ '\n' ∉ line.toList) ∧
    (Mode.layer.print r = Mode.layer.print r' ↔ r.notice kind = r'.notice kind') := by
  rw [h.print_layer, h'.print_layer]
  exact ⟨Notice.exists_line hplain, Notice.text_eq_iff hplain hplain'⟩

/-- A name that was recorded twice, and an operator that never was, against a record in another
order in which it was a question mark. -/
theorem print_layer_eq_iff_reordered :
    let r : Record := ⟨"kernjit::jit", .debug, [⟨"name", .text "old"⟩,
      ⟨"event", .text "kernel_compiled"⟩, ⟨"op1", .described "+"⟩, ⟨"name", .described "\"k\""⟩]⟩
    let r' : Record := ⟨"kernjit", .info, [⟨"op2", .text "?"⟩, ⟨"name", .text "k"⟩,
      ⟨"op1", .text "+"⟩, ⟨"event", .described "\"kernel_compiled\""⟩]⟩
    r.IsOf .compiled ∧ r'.IsOf .compiled ∧
    (r.notice .compiled).IsPlain ∧ (r'.notice .compiled).IsPlain ∧
    (∃ line, Mode.layer.print r = line ++ "\n" ∧ '\n' ∉ line.toList) ∧
    Mode.layer.print r = Mode.layer.print r' := by
  intro r r'
  have h : r.IsOf .compiled := ⟨by decide, by decide⟩
  have h' : r'.IsOf .compiled := ⟨by decide, by decide⟩
  have hsame : r.notice .compiled = r'.notice .compiled := by decide
  have hplain : (r.notice .compiled).IsPlain := by
    unfold Notice.IsPlain
    decide
  obtain ⟨hline, hiff⟩ := print_layer_eq_iff h h' hplain (hsame ▸ hplain)
  exact ⟨h, h', hplain, hsame ▸ hplain, hline, hiff.mpr hsame⟩

end FusedKernel.Console
