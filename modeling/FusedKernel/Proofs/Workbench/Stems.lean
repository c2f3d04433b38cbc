import FusedKernel.Proofs.Assembly.History
import FusedKernel.Settings.File
import FusedKernel.Workbench.Basic

/-! Stems of names. Settings that are read from a text have an identifier as their stem, and an
assembly is created only if the stems of its settings and of its names are identifiers. So are the
names that it draws, as they go on from the stem with an underscore and digits. -/
namespace FusedKernel

namespace Settings

def IsLetter (c : Char) : Prop := 'A' ≤ c ∧ c ≤ 'Z' ∨ 'a' ≤ c ∧ c ≤ 'z'

def IsDigit (c : Char) : Prop := '0' ≤ c ∧ c ≤ '9'

/-- Letters, digits and underscores, at least one of them, and no digit at the start. -/
structure Identifier (s : String) : Prop where
  nonempty : s ≠ ""
  part : ∀ c ∈ s.toList, IsLetter c ∨ IsDigit c ∨ c = '_'
  start : ∀ c ∈ s.toList.head?, ¬ IsDigit c

/-! ### Validation -/

theorem isAlpha_iff {c : Char} : c.isAlpha ↔ IsLetter c := by
  delta Char.isAlpha Char.isUpper Char.isLower
  simp [IsLetter, Char.le_def]

theorem isDigit_iff {c : Char} : c.isDigit ↔ IsDigit c := by
  delta Char.isDigit
  simp [IsDigit, Char.le_def]

theorem isIdentifierPart_iff {c : Char} :
    isIdentifierPart c ↔ IsLetter c ∨ IsDigit c ∨ c = '_' := by
  simp [isIdentifierPart, Char.isAlphanum, isAlpha_iff, isDigit_iff, or_assoc]

theorem IsLetter.not_isDigit {c : Char} (hc : IsLetter c) : ¬ IsDigit c := by
  rintro ⟨-, hd⟩
  obtain ⟨ha, -⟩ | ⟨ha, -⟩ := hc
  · exact absurd (Char.le_trans ha hd) (by decide)
  · exact absurd (Char.le_trans ha hd) (by decide)

theorem isIdentifierStart_iff {c : Char} :
    isIdentifierStart c ↔ isIdentifierPart c ∧ ¬ IsDigit c := by
  have hunderscore : ¬ IsDigit '_' := by simp [IsDigit, Char.le_def]
  have hstart : isIdentifierStart c ↔ IsLetter c ∨ c = '_' := by
    simp [isIdentifierStart, isAlpha_iff]
  rw [hstart, isIdentifierPart_iff]
  -- letters, digits and the underscore are apart
  constructor
  · rintro (hc | rfl)
    · exact ⟨.inl hc, hc.not_isDigit⟩
    · exact ⟨.inr (.inr rfl), hunderscore⟩
  · rintro ⟨hc | hc | hc, hd⟩
    · exact .inl hc
    · exact absurd hc hd
    · exact .inr hc

theorem isIdentifier_iff {s : List Char} :
    isIdentifier s ↔ s ≠ [] ∧ (∀ c ∈ s, isIdentifierPart c) ∧ ∀ c ∈ s.head?, ¬ IsDigit c := by
  cases s with
  | nil => simp [isIdentifier]
  | cons c rest =>
    simp only [isIdentifier, Bool.and_eq_true, isIdentifierStart_iff, List.all_eq_true,
      List.forall_mem_cons, List.head?_cons, Option.mem_some_iff, forall_eq', ne_eq,
      List.cons_ne_nil, not_false_eq_true, true_and]
    exact and_right_comm

theorem isValid_iff (s : Settings) : s.isValid ↔ Identifier s.stem := by
  simp only [isValid, isIdentifier_iff, isIdentifierPart_iff]
  constructor
  · rintro ⟨hne, hpart, hstart⟩
    exact ⟨fun he => hne (String.toList_eq_nil_iff.mpr he), hpart, hstart⟩
  · rintro ⟨hne, hpart, hstart⟩
    exact ⟨fun he => hne (String.toList_eq_nil_iff.mp he), hpart, hstart⟩

instance (s : String) : Decidable (Identifier s) :=
  decidable_of_iff _ (isValid_iff { stem := s })

theorem validate_eq (s : Settings) :
    s.validate = if Identifier s.stem then .ok () else .error (.invalidStem s.stem) := by
  simp only [validate, isValid_iff]

theorem validate_eq_ok_iff (s : Settings) : s.validate = .ok () ↔ Identifier s.stem := by
  rw [validate_eq]
  by_cases hs : Identifier s.stem <;> simp [hs]

theorem validate_of_ofData {format : Format} {data : Except DataError Settings} {s : Settings}
    (h : ofData format data = .ok s) : s.validate = .ok () := by
  cases data with
  | error e => cases h
  | ok s' =>
    unfold ofData validated at h
    cases hv : s'.validate with
    | error e => simp [hv] at h
    | ok _ =>
      obtain rfl : s' = s := by simpa [hv] using h
      exact hv

theorem validate_of_ofText {format : Format} {text : String} {s : Settings}
    (h : ofText format text = .ok s) : s.validate = .ok () := by
  cases format <;> exact validate_of_ofData h

theorem validate_of_ofPath {format : Format} {content : PathContent} {s : Settings}
    (h : ofPath format content = .ok s) : s.validate = .ok () := by
  unfold ofPath at h
  split at h
  · exact validate_of_ofText h
  · cases h

/-! ### Names -/

theorem Identifier.append {s t : String} (hs : Identifier s)
    (ht : ∀ c ∈ t.toList, IsLetter c ∨ IsDigit c ∨ c = '_') : Identifier (s ++ t) := by
  have hne : s.toList ≠ [] := fun he => hs.nonempty (String.toList_eq_nil_iff.mp he)
  refine ⟨fun he => ?_, fun c hc => ?_, ?_⟩
  · rw [← String.toList_eq_nil_iff, String.toList_append] at he
    exact hne (List.append_eq_nil_iff.mp he).1
  · rw [String.toList_append, List.mem_append] at hc
    exact hc.elim (hs.part c) (ht c)
  · rw [String.toList_append, List.head?_append_of_ne_nil _ hne]
    exact hs.start

end Settings

open Settings (Identifier IsDigit)

/-- A stem, followed by an underscore and decimal digits. -/
def NameSupply.Numbered (stem name : String) : Prop :=
  ∃ digits, digits ≠ [] ∧ (∀ c ∈ digits, IsDigit c) ∧ name = stem ++ "_" ++ String.ofList digits

namespace NameSupply

theorem numbered_nameAt (stem : String) (n : Nat) : Numbered stem (nameAt stem n) := by
  refine ⟨Nat.toDigits 10 n, Nat.toDigits_ne_nil, fun c hc => ?_, ?_⟩
  · exact Settings.isDigit_iff.mp (Nat.isDigit_of_mem_toDigits (by decide) (by decide) hc)
  · rw [nameAt, ← String.toList_inj]
    simp

theorem Numbered.identifier {stem name : String} (h : Numbered stem name) (hs : Identifier stem) :
    Identifier name := by
  obtain ⟨digits, -, hdigits, rfl⟩ := h
  refine (hs.append fun c hc => ?_).append fun c hc => ?_
  · exact .inr (.inr (by simpa using hc))
  · exact .inr (.inl (hdigits c (by simpa using hc)))

end NameSupply

namespace Assembly

variable {id : Nat} {settings : Settings} {names : NameSupply} {u₀ : Assembly}

theorem create_eq (id : Nat) (settings : Settings) (names : NameSupply) :
    create id settings names =
      if Identifier settings.stem then
        if Identifier names.stem then .ok (empty id settings names)
        else .error (.invalidStem names.stem)
      else .error (.invalidStem settings.stem) := by
  rw [create, Settings.validate_eq, Settings.validate_eq]
  by_cases hsettings : Identifier settings.stem
  · by_cases hnames : Identifier names.stem <;> simp only [hsettings, hnames, if_true, if_false]
  · simp only [hsettings, if_false]

theorem identifier_of_create (h : create id settings names = .ok u₀) : Identifier names.stem := by
  rw [create_eq] at h
  split at h
  · split at h
    · assumption
    · cases h
  · cases h

/-- A request that draws a name is answered for a name that goes on from the stem. -/
theorem numbered_perform (h : create id settings names = .ok u₀) (requests : List Request)
    {r : Request} (hr : r.draws) :
    ∃ name, NameSupply.Numbered names.stem name ∧
      match ((u₀.performAll requests).1.perform r).result with
      | .ok h => h.name = name
      | .error e => e = .duplicateSymbol name := by
  obtain rfl := create_eq_ok h
  have hh := (sound_empty id settings names).performAll requests
  generalize ((empty id settings names).performAll requests).1 = u at hh
  have hname : r.name u.names = NameSupply.nameAt names.stem u.names.issued := by
    have hgiven : r.givenName? = none := Option.isNone_iff_eq_none.mp (Bool.and_eq_true_iff.mp hr).1
    rw [Request.name, hgiven, hh.names]
    rfl
  refine ⟨_, NameSupply.numbered_nameAt names.stem u.names.issued, ?_⟩
  cases hops : r.ops with
  | error e => simp [Request.draws, hops, Except.toBool] at hr
  | ok ops =>
    rw [hh.sound.perform_result]
    simp only [Request.answer, hops, hname]
    by_cases hissued : NameSupply.nameAt names.stem u.names.issued ∈
      u.handles.toList.map Handle.name
    · simp only [hissued, if_true]
    · simp only [hissued, if_false]

end Assembly

namespace Workbench

theorem perform_create (w : Workbench) (slot : Slot) (settings : Settings)
    (supply : Option NameSupply) :
    let names := supply.getD (.new settings.stem)
    w.perform (.create slot (.ok settings) supply) =
      if Identifier settings.stem then
        if Identifier names.stem then
          ⟨{ w with
              nextId := w.nextId + 1
              assemblies := w.assemblies.insert slot (.empty w.nextId settings names) }, .done, []⟩
        else w.tell (.failed (.settings (.invalidStem names.stem)))
      else w.tell (.failed (.settings (.invalidStem settings.stem))) := by
  intro names
  rw [perform, create, Assembly.create_eq]
  by_cases hsettings : Identifier settings.stem
  · by_cases hnames : Identifier names.stem
    · simp only [hsettings, hnames, names, if_true]
    · simp only [hsettings, hnames, names, if_true, if_false]
  · simp only [hsettings, if_false]

/-- Every stem in use is an identifier. Settings are valid if and only if their stem is one, and
settings from a text or a file are valid. An assembly is created if and only if the stem of the
settings and that of the names are identifiers; otherwise the first that is none is reported, and
no identity is used up. Whatever is asked of an assembly, each name that it draws is an identifier
again: the stem, an underscore and digits. -/
theorem identifier_stems :
    (∀ s : Settings, s.validate = .ok () ↔ Identifier s.stem) ∧
    (∀ format text s, Settings.ofText format text = .ok s → s.validate = .ok ()) ∧
    (∀ format content s, Settings.ofPath format content = .ok s → s.validate = .ok ()) ∧
    (∀ (w : Workbench) (slot : Slot) (settings : Settings) (supply : Option NameSupply),
      let names := supply.getD (.new settings.stem)
      w.perform (.create slot (.ok settings) supply) =
        if Identifier settings.stem then
          if Identifier names.stem then
            ⟨{ w with
                nextId := w.nextId + 1
                assemblies := w.assemblies.insert slot (.empty w.nextId settings names) },
              .done, []⟩
          else w.tell (.failed (.settings (.invalidStem names.stem)))
        else w.tell (.failed (.settings (.invalidStem settings.stem)))) ∧
    (∀ stem, (Failure.settings (.invalidStem stem)).message? =
      some ("configuration error: Invalid configuration: symbol_prefix " ++ Text.quoted stem ++
        " is not an identifier")) ∧
    ∀ id settings names u₀, Assembly.create id settings names = .ok u₀ →
      ∀ (requests : List Assembly.Request) (r : Assembly.Request), r.draws →
        ∃ name, NameSupply.Numbered names.stem name ∧ Identifier name ∧
          match ((u₀.performAll requests).1.perform r).result with
          | .ok h => h.name = name
          | .error e => e = .duplicateSymbol name := by
  refine ⟨Settings.validate_eq_ok_iff, fun _ _ _ => Settings.validate_of_ofText,
    fun _ _ _ => Settings.validate_of_ofPath, perform_create, fun stem => ?_,
    fun id settings names u₀ h requests r hr => ?_⟩
  · simp only [Failure.message?, Settings.Error.message?, Option.map_some, ← String.append_assoc]
    rfl
  · obtain ⟨name, hname, hresult⟩ := Assembly.numbered_perform h requests hr
    exact ⟨name, hname, hname.identifier (Assembly.identifier_of_create h), hresult⟩

/-- A name that was given before is drawn all the same, and goes on from the stem. -/
theorem identifier_stems_collision :
    let u := ((Assembly.empty 3 {} (.new "k")).performAll [.compileAs "k_0" ⟨.plus, .minus⟩]).1
    ∃ name, NameSupply.Numbered "k" name ∧ Identifier name ∧
      match (u.perform (.compile ⟨.divide, .plus⟩)).result with
      | .ok h => h.name = name
      | .error e => e = .duplicateSymbol name := by
  have hcreate : Assembly.create 3 {} (.new "k") = .ok (.empty 3 {} (.new "k")) := rfl
  obtain ⟨-, -, -, -, -, hdrawn⟩ := identifier_stems
  exact hdrawn 3 {} (.new "k") _ hcreate [.compileAs "k_0" ⟨.plus, .minus⟩]
    (.compile ⟨.divide, .plus⟩) rfl

end Workbench

end FusedKernel
