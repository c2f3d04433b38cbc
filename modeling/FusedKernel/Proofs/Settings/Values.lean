import FusedKernel.Proofs.Settings.Entries
import FusedKernel.Settings.Toml
import FusedKernel.Settings.Yaml

/-! What the values of both formats stand for. A value is read as a setting exactly if it is of the
setting's type; a level has the name that the code generator has for it, and no other. -/
namespace FusedKernel.Settings

/-! ### Types -/

/-- Which values of a format are booleans and texts, and which name a level. -/
structure Typing (V : Type) where
  level : V → String → Prop
  boolean : V → Bool → Prop
  text : V → String → Prop

section
variable {V : Type}

/-- A value of the type of a key gives a setting. -/
inductive Typing.Gives (typing : Typing V) : Key → V → Change → Prop
  | optimization {value : V} {level : Optimization} (h : typing.level value level.setting) :
    typing.Gives .optimization value (.optimization level)
  | verify {value : V} {on : Bool} (h : typing.boolean value on) :
    typing.Gives .verify value (.verify on)
  | stem {value : V} {s : String} (h : typing.text value s) : typing.Gives .stem value (.stem s)
  | keepText {value : V} {on : Bool} (h : typing.boolean value on) :
    typing.Gives .keepText value (.keepText on)

/-- A format's values are read by their types. -/
structure Reader.Respects (reader : Reader V) (typing : Typing V) : Prop where
  level : ∀ value level, reader.level value = .ok level ↔ typing.level value level.setting
  boolean : ∀ value on, reader.boolean value = .ok on ↔ typing.boolean value on
  text : ∀ value s, reader.text value = .ok s ↔ typing.text value s

theorem Reader.Respects.setting_eq_ok_iff {reader : Reader V} {typing : Typing V}
    (h : reader.Respects typing) {key : Key} {value : V} {x : Change} :
    reader.setting key value = .ok x ↔ typing.Gives key value x := by
  constructor
  · intro hx
    cases key <;> obtain ⟨a, ha, rfl⟩ := map_eq_ok_iff.mp hx
    · exact .optimization ((h.level value a).mp ha)
    · exact .verify ((h.boolean value a).mp ha)
    · exact .stem ((h.text value a).mp ha)
    · exact .keepText ((h.boolean value a).mp ha)
  · intro hx
    cases hx with
    | optimization ha => exact map_eq_ok_iff.mpr ⟨_, (h.level _ _).mpr ha, rfl⟩
    | verify ha | keepText ha => exact map_eq_ok_iff.mpr ⟨_, (h.boolean _ _).mpr ha, rfl⟩
    | stem ha => exact map_eq_ok_iff.mpr ⟨_, (h.text _ _).mpr ha, rfl⟩

end

/-! ### TOML -/

namespace Toml

open FusedKernel.Toml (Value)

/-- A value names a level: by its text, or as the only key of a table, over nothing. -/
def Names (v : Value) (name : String) : Prop :=
  v = .text name ∨
    ∃ origin value, v = .table origin [(name, value)] ∧ value.isEmptyCollection = true

def typing : Typing Value where
  level := Names
  boolean v b := v = .boolean b
  text v s := v = .text s

theorem levelNamed_eq_ok_iff {name : String} {l : Optimization} :
    levelNamed name = .ok l ↔ name = l.setting := by
  rw [← Optimization.ofName?_eq_some_iff, levelNamed]
  cases Optimization.ofName? name <;> simp

theorem level_eq_ok_iff {v : Value} {l : Optimization} :
    level v = .ok l ↔ Names v l.setting := by
  unfold level Names
  split
  next s => simp [levelNamed_eq_ok_iff]
  next origin name value =>
    have hname := @levelNamed_eq_ok_iff name l
    cases h : levelNamed name with
    | error e => simp_all
    | ok l' => cases hvalue : value.isEmptyCollection <;> simp_all
  next htext htable =>
    constructor
    · nofun
    · rintro (rfl | ⟨origin, value, rfl, -⟩)
      · exact absurd rfl (htext _)
      · exact absurd rfl (htable _ _ _)

theorem respects_typing : reader.Respects typing where
  level _ _ := level_eq_ok_iff
  boolean v b := by cases v <;> simp [reader, boolean, typing]
  text v s := by cases v <;> simp [reader, text, typing]

end Toml

/-! ### YAML -/

namespace Yaml

open FusedKernel.Yaml (Chars Tag Head boolean? isNullWord)

/-- The words for a boolean. -/
def booleanWords : Bool → List Chars
  | true => ["true".toList, "True".toList, "TRUE".toList]
  | false => ["false".toList, "False".toList, "FALSE".toList]

/-- A boolean is a plain word, or a literal one that is marked as a boolean. -/
inductive IsBoolean (b : Bool) : Head → Prop
  | plain (tag : Option Tag) {text : Chars} (h : text ∈ booleanWords b) :
    IsBoolean b (.scalar tag .plain text)
  | literal {text : Chars} (h : text ∈ booleanWords b) :
    IsBoolean b (.scalar (some (.core "bool")) .literal text)

/-- Every scalar is a text, whatever it is elsewhere. -/
inductive IsText (s : String) : Head → Prop
  | scalar (tag : Option Tag) (style : FusedKernel.Yaml.Style) :
    IsText s (.scalar tag style s.toList)

def nullWords : List Chars := ["null".toList, "Null".toList, "NULL".toList, ['~']]

/-- Nothing is written as a plain scalar without text, or with a word for null. -/
inductive IsNothing : Head → Prop
  | plain (tag : Option Tag) {text : Chars} (h : text ∈ [] :: nullWords) :
    IsNothing (.scalar tag .plain text)

/-- The value is there, and of a kind. -/
def Placed.Is (p : Placed) (kind : Head → Prop) : Prop :=
  ∃ node, p.node = some node ∧ kind node.head

/-- A value names a level: by its text, or, if it has a tag that is a name, by the tag alone. -/
def Names (p : Placed) (name : String) : Prop :=
  p.tagName? = some name ∧ p.Is IsNothing ∨ p.tagName? = none ∧ p.Is (IsText name)

def typing : Typing Placed where
  level := Names
  boolean p b := p.Is (IsBoolean b)
  text p s := p.Is (IsText s)

theorem boolean?_eq_some_iff {text : Chars} {b : Bool} :
    boolean? text = some b ↔ text ∈ booleanWords b := by
  have htrue : (text == "true".toList || text == "True".toList || text == "TRUE".toList) = true ↔
      text ∈ booleanWords true := by
    simp [booleanWords, or_assoc]
  have hfalse : (text == "false".toList || text == "False".toList || text == "FALSE".toList) =
      true ↔ text ∈ booleanWords false := by
    simp [booleanWords, or_assoc]
  have happart : ∀ text ∈ booleanWords true, text ∉ booleanWords false := by decide
  unfold boolean?
  split
  next ht =>
    have hm := htrue.mp ht
    cases b with
    | true => simp [hm]
    | false => simp [happart text hm]
  next ht =>
    have hm := mt htrue.mpr ht
    split
    next hf => cases b <;> simp [hm, hfalse.mp hf]
    next hf => cases b <;> simp [hm, mt hfalse.mpr hf]

theorem isNullWord_iff {text : Chars} : isNullWord text = true ↔ text ∈ nullWords := by
  simp [isNullWord, nullWords, or_assoc]

/-- A value is read if it is there and its node is. -/
theorem Placed.read_eq_ok_iff {α : Type} {p : Placed} {f : Head → Except Cause α} {x : α} :
    p.read f = .ok x ↔ p.Is fun head => f head = .ok x := by
  obtain ⟨place, _ | node, located⟩ := p
  · simp [Placed.read, Placed.Is]
  · cases h : f node.head <;> simp [Placed.read, Placed.Is, h]

theorem booleanOf_eq_ok_iff {head : Head} {b : Bool} :
    booleanOf head = .ok b ↔ IsBoolean b head := by
  cases head with
  | sequence | mapping => exact ⟨nofun, nofun⟩
  | scalar tag style text =>
    have hword := @boolean?_eq_some_iff text b
    constructor
    · intro h
      simp only [booleanOf] at h
      split at h
      next b' hb =>
        cases h
        split at hb
        next hfits =>
          have hm := hword.mp hb
          obtain hplain | hliteral := Bool.or_eq_true_iff.mp hfits
          · obtain rfl := of_decide_eq_true hplain
            exact .plain tag hm
          · obtain ⟨hstyle, htag⟩ := Bool.and_eq_true_iff.mp hliteral
            obtain rfl := of_decide_eq_true hstyle
            obtain rfl := eq_of_beq htag
            exact .literal hm
        · cases hb
      · cases h
    · intro h
      cases h with
      | plain tag hm => simp [booleanOf, hword.mpr hm]
      | literal hm => simp [booleanOf, hword.mpr hm]

theorem textOf_eq_ok_iff {head : Head} {s : String} : textOf head = .ok s ↔ IsText s head := by
  cases head with
  | sequence | mapping => exact ⟨nofun, nofun⟩
  | scalar tag style text =>
    constructor
    · rintro ⟨⟩
      have htext : IsText (String.ofList text) (.scalar tag style (String.ofList text).toList) :=
        .scalar tag style
      rwa [String.toList_ofList] at htext
    · rintro ⟨⟩
      exact congrArg Except.ok String.ofList_toList

theorem noContent_eq_ok_iff {head : Head} : noContent head = .ok () ↔ IsNothing head := by
  cases head with
  | sequence | mapping => exact ⟨nofun, nofun⟩
  | scalar tag style text =>
    have hempty : (text.isEmpty || isNullWord text) = true ↔ text ∈ [] :: nullWords := by
      simp [isNullWord_iff]
    constructor
    · intro h
      simp only [noContent] at h
      split at h
      next hn =>
        obtain ⟨hstyle, ht⟩ := Bool.and_eq_true_iff.mp hn
        obtain rfl := of_decide_eq_true hstyle
        exact .plain tag (hempty.mp ht)
      · cases h
    · rintro ⟨-, hm⟩
      simp [noContent, hempty.mpr hm]

/-- A text that names a level is read as that level. -/
theorem levelOf_eq_ok_iff {head : Head} {l : Optimization} :
    levelOf head = .ok l ↔ textOf head = .ok l.setting := by
  cases head with
  | sequence | mapping => exact ⟨nofun, nofun⟩
  | scalar tag style text =>
    have hname := @Optimization.ofName?_eq_some_iff (String.ofList text) l
    cases h : Optimization.ofName? (String.ofList text) <;> simp_all [levelOf, textOf]

theorem level_eq_ok_iff {p : Placed} {l : Optimization} :
    level p = .ok l ↔ Names p l.setting := by
  rw [level, Names]
  cases hname : p.tagName? with
  | none => simp [Placed.read_eq_ok_iff, levelOf_eq_ok_iff, textOf_eq_ok_iff]
  | some name =>
    have hlevel := @Optimization.ofName?_eq_some_iff name l
    have hread : p.read noContent = .ok () ↔ p.Is IsNothing := by
      simp [Placed.read_eq_ok_iff, noContent_eq_ok_iff]
    cases h : Optimization.ofName? name with
    | none => simp_all
    | some l' => cases hc : p.read noContent <;> simp_all [Except.map]

theorem respects_typing : reader.Respects typing where
  level _ _ := level_eq_ok_iff
  boolean p b := by simp [reader, typing, Placed.read_eq_ok_iff, booleanOf_eq_ok_iff]
  text p s := by simp [reader, typing, Placed.read_eq_ok_iff, textOf_eq_ok_iff]

end Yaml

end FusedKernel.Settings
