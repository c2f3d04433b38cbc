import Mathlib.Data.List.Forall2
import Mathlib.Tactic.Common
import FusedKernel.Operator.Reading
import FusedKernel.Proofs.Text.Letters

/-! Which texts are read as operators: a symbol, or a name up to the case of ASCII letters, between
blanks. No text spells two operators, so the first that fits is the only one. -/
namespace FusedKernel.Operator

open Text

theorem sameLetters_iff {s t : List Char} : sameLetters s t ↔ List.Forall₂ SameLetter s t := by
  rw [sameLetters, beq_iff_eq, ← List.forall₂_eq_eq_eq, List.forall₂_map_left_iff,
    List.forall₂_map_right_iff]
  simp only [toLower_eq_iff]

/-! ### Spellings -/

/-- A text without blanks that stands for an operator. -/
def IsCore (op : Operator) (core : List Char) : Prop :=
  core = op.symbol.toList ∨ List.Forall₂ SameLetter op.name.toList core

/-- The grammar of written operators: a core between blanks. -/
def SpelledBy (op : Operator) (s : String) : Prop :=
  ∃ before core after, s.toList = before ++ core ++ after ∧ (∀ c ∈ before, isBlank c) ∧
    op.IsCore core ∧ ∀ c ∈ after, isBlank c

variable {op op' : Operator} {core : List Char} {s : String}

theorem spells_iff : spells core op ↔ op.IsCore core := by
  rw [spells, Bool.or_eq_true, beq_iff_eq, sameLetters_iff, IsCore, eq_comm]

theorem length_symbol (op : Operator) : op.symbol.toList.length = 1 := by
  cases op <;> rfl

theorem one_lt_length_name (op : Operator) : 1 < op.name.toList.length := by
  cases op <;> decide

theorem symbol_injective : Function.Injective symbol := by
  intro op op' h
  cases op <;> cases op' <;> first | rfl | exact absurd h (by decide)

/-- The names of the catalogue differ in length, so they do up to case as well. -/
theorem eq_of_length_name (h : op.name.toList.length = op'.name.toList.length) : op = op' := by
  cases op <;> cases op' <;> first | rfl | exact absurd h (by decide)

theorem IsCore.unique (h : op.IsCore core) (h' : op'.IsCore core) : op = op' := by
  have hsymbol := op.length_symbol
  have hsymbol' := op'.length_symbol
  have hname := op.one_lt_length_name
  have hname' := op'.one_lt_length_name
  obtain rfl | h := h
  · obtain h' | h' := h'
    · exact symbol_injective (String.toList_inj.mp h')
    · have hlength := h'.length_eq
      omega
  · have hlength := h.length_eq
    obtain rfl | h' := h'
    · omega
    · exact eq_of_length_name (hlength.trans h'.length_eq.symm)

theorem isLower_of_mem_name {c : Char} (hc : c ∈ op.name.toList) : c.isLower := by
  have hall : op.name.toList.all Char.isLower := by cases op <;> rfl
  exact List.all_eq_true.mp hall c hc

theorem IsCore.not_isBlank (h : op.IsCore core) : ∀ c ∈ core, isBlank c = false := by
  obtain rfl | h := h
  · have hall : op.symbol.toList.all fun c => !isBlank c := by cases op <;> rfl
    intro c hc
    simpa using List.all_eq_true.mp hall c hc
  · have hlower : ∀ c ∈ op.name.toList, c.isLower := fun c => isLower_of_mem_name
    generalize op.name.toList = letters at h hlower
    induction h with
    | nil => exact List.forall_mem_nil _
    | cons hdc _ ih =>
      obtain ⟨hd, hrest⟩ := List.forall_mem_cons.mp hlower
      exact List.forall_mem_cons.mpr ⟨hdc.not_isBlank hd, ih hrest⟩

theorem trimBlank_of_isCore {before after : List Char} (hb : ∀ c ∈ before, isBlank c)
    (hc : op.IsCore core) (ha : ∀ c ∈ after, isBlank c) :
    trimBlank (before ++ core ++ after) = core :=
  trimBy_append hb hc.not_isBlank ha

/-- A text spells an operator exactly if what trimming leaves of it is a core. -/
theorem spelledBy_iff : op.SpelledBy s ↔ op.IsCore (trimBlank s.toList) := by
  constructor
  · rintro ⟨before, core, after, hs, hb, hc, ha⟩
    rwa [hs, trimBlank_of_isCore hb hc ha]
  · intro h
    obtain ⟨before, after, hs, hb, ha⟩ := exists_append_trimBy isBlank s.toList
    exact ⟨before, _, after, hs, hb, h, ha⟩

theorem ofText?_eq_some_iff : ofText? s = some op ↔ op.SpelledBy s := by
  rw [spelledBy_iff]
  refine ⟨fun h => spells_iff.mp (List.find?_some h), fun h => ?_⟩
  cases hfind : ofText? s with
  | none =>
    exact absurd (spells_iff.mpr h) (List.find?_eq_none.mp hfind op (mem_all op))
  | some op' => exact congrArg some ((spells_iff.mp (List.find?_some hfind)).unique h)

theorem ofText?_eq_none_iff : ofText? s = none ↔ ∀ op : Operator, ¬op.SpelledBy s := by
  simp only [← ofText?_eq_some_iff, Option.eq_none_iff_forall_ne_some, ne_eq]

theorem Written.read_text_eq_ok_iff : (text s).read = .ok op ↔ ofText? s = some op := by
  simp only [read, read?]
  cases ofText? s <;> simp

theorem Written.read_text_eq_error_iff {e : UnsupportedOperator} :
    (text s).read = .error e ↔ e.given = s ∧ ofText? s = none := by
  obtain ⟨unread⟩ := e
  simp only [read, read?, given]
  cases ofText? s <;> simp [eq_comm]

/-- Reading accepts exactly the grammar: a text is read as an operator if and only if it is the
symbol or, up to the case of ASCII letters, the name of the operator between blanks. The grammar is
unambiguous, and a text outside it is reported as it was given, blanks included. -/
theorem read_text (s : String) :
    (∀ op : Operator, (Written.text s).read = .ok op ↔ op.SpelledBy s) ∧
    (∀ op op' : Operator, op.SpelledBy s → op'.SpelledBy s → op = op') ∧
    ∀ e, (Written.text s).read = .error e ↔ e.given = s ∧ ∀ op : Operator, ¬op.SpelledBy s := by
  refine ⟨fun op => Written.read_text_eq_ok_iff.trans ofText?_eq_some_iff,
    fun op op' h h' => (spelledBy_iff.mp h).unique (spelledBy_iff.mp h'), fun e => ?_⟩
  rw [Written.read_text_eq_error_iff, ofText?_eq_none_iff]

end FusedKernel.Operator
