import Mathlib.Data.List.Induction
import Mathlib.Data.List.Nodup
import FusedKernel.Settings.Document

/-! What the entries of a document give. The first entry at fault decides, whatever stands behind
it; without a fault each setting is read from its entry, or has its default. Keys without meaning
and the order of the others do not matter then. -/
namespace FusedKernel.Settings

/-! ### Single settings -/

/-- The setting of a key. -/
def setting (s : Settings) : Key → Change
  | .optimization => .optimization s.optimization
  | .verify => .verify s.verify
  | .stem => .stem s.stem
  | .keepText => .keepText s.keepText

/-- The setting of a key that a document does not have. -/
def Key.default : Key → Change
  | .optimization => .optimization .speed
  | .verify => .verify true
  | .stem => .stem "kernel"
  | .keepText => .keepText false

theorem ext_setting {s t : Settings} (h : ∀ key, s.setting key = t.setting key) : s = t := by
  have hoptimization := h .optimization
  have hverify := h .verify
  have hstem := h .stem
  have hkeepText := h .keepText
  cases s
  cases t
  simp_all [setting]

theorem map_eq_ok_iff {α β : Type} {f : α → β} {x : Except DataError α} {y : β} :
    x.map f = .ok y ↔ ∃ a, x = .ok a ∧ f a = y := by
  cases x <;> simp [Except.map]

theorem Key.name_of_ofName? {name : String} {key : Key} (h : Key.ofName? name = some key) :
    key.name = name := by
  simpa using List.find?_some h

theorem Key.name_injective : Function.Injective Key.name := fun key key' h => by
  simpa using congrArg Key.ofName? h

section
variable {V : Type} (reader : Reader V)

/-- The setting that a value writes under a key. -/
def Reader.setting (key : Key) (value : V) : Except DataError Change :=
  match key with
  | .optimization => (reader.level value).map .optimization
  | .verify => (reader.boolean value).map .verify
  | .stem => (reader.text value).map .stem
  | .keepText => (reader.boolean value).map .keepText

/-! ### Faults -/

/-- The key of an entry, if it has a meaning. -/
def Entry.key? : Entry V → Option Key
  | .pair name _ => Key.ofName? name
  | .broken _ => none

/-- The keys with a meaning, in their order. -/
def keys (entries : List (Entry V)) : List Key := entries.filterMap Entry.key?

/-- An entry is at fault after others: there the document cannot be read on, a key comes again, or
its value does not write a setting of that key. -/
inductive Offends (before : List (Entry V)) : Entry V → DataError → Prop
  | broken (e : DataError) : Offends before (.broken e) e
  | again {key : Key} (value : V) (h : key ∈ keys before) :
    Offends before (.pair key.name value) { cause := .duplicateField key.name }
  | misread {key : Key} {value : V} {e : DataError} (hk : key ∉ keys before)
    (h : reader.setting key value = .error e) : Offends before (.pair key.name value) e

/-- No entry is at fault. -/
structure Faultless (entries : List (Entry V)) : Prop where
  unbroken : ∀ e, .broken e ∉ entries
  distinct : (keys entries).Nodup
  reads : ∀ key value, .pair (Key.name key) value ∈ entries →
    ∃ x, reader.setting key value = .ok x

/-- The first entry at fault, with its fault. -/
def FirstOffence (entries : List (Entry V)) (e : DataError) : Prop :=
  ∃ before x after, entries = before ++ x :: after ∧ Faultless reader before ∧
    Offends reader before x e

/-- Settings are those that the entries write, and defaults besides. -/
structure Reflects (entries : List (Entry V)) (s : Settings) : Prop where
  given : ∀ key value, .pair (Key.name key) value ∈ entries →
    reader.setting key value = .ok (s.setting key)
  absent : ∀ key, key ∉ keys entries → s.setting key = key.default

end

variable {V : Type} {reader : Reader V} {entries entries' done rest : List (Entry V)} {key : Key}
  {value : V} {e : DataError}

theorem mem_keys_iff : key ∈ keys entries ↔ ∃ value, .pair key.name value ∈ entries := by
  rw [keys, List.mem_filterMap]
  constructor
  · rintro ⟨x, hx, hk⟩
    cases x with
    | pair name value => exact ⟨value, Key.name_of_ofName? hk ▸ hx⟩
    | broken e => cases hk
  · rintro ⟨value, hx⟩
    exact ⟨_, hx, key.ofName?_name⟩

theorem keys_concat (x : Entry V) : keys (done ++ [x]) = keys done ++ x.key?.toList := by
  rw [keys, List.filterMap_append]
  cases hx : x.key? <;> simp [keys, hx]

theorem faultless_nil (reader : Reader V) : Faultless reader [] :=
  ⟨fun _ => List.not_mem_nil, List.nodup_nil, fun _ _ h => absurd h List.not_mem_nil⟩

theorem keys_append (before after : List (Entry V)) :
    keys (before ++ after) = keys before ++ keys after := List.filterMap_append

/-- An entry is at fault after others, has no meaning, or writes a setting of a new key. -/
theorem offends_or_fits (reader : Reader V) (done : List (Entry V)) (x : Entry V) :
    (∃ e, Offends reader done x e) ∨
    (∃ name value, x = .pair name value ∧ Key.ofName? name = none) ∨
    ∃ key value y, x = .pair (Key.name key) value ∧ key ∉ keys done ∧
      reader.setting key value = .ok y := by
  cases x with
  | broken e => exact .inl ⟨e, .broken e⟩
  | pair name value =>
    cases hk : Key.ofName? name with
    | none => exact .inr (.inl ⟨name, value, rfl, hk⟩)
    | some key =>
      obtain rfl := Key.name_of_ofName? hk
      by_cases hm : key ∈ keys done
      · exact .inl ⟨_, .again value hm⟩
      · cases hr : reader.setting key value with
        | error e => exact .inl ⟨e, .misread hm hr⟩
        | ok y => exact .inr (.inr ⟨key, value, y, rfl, hm, hr⟩)

theorem Faultless.not_offends {x : Entry V} (h : Faultless reader (done ++ x :: rest)) :
    ¬ Offends reader done x e := by
  intro ho
  cases ho with
  | broken => exact h.unbroken e (List.mem_append_right _ List.mem_cons_self)
  | again value hm =>
    have hkeys := h.distinct
    rw [keys_append, List.nodup_append] at hkeys
    exact hkeys.2.2 _ hm _ (mem_keys_iff.mpr ⟨value, List.mem_cons_self⟩) rfl
  | misread hk hr =>
    obtain ⟨y, hy⟩ := h.reads _ _ (List.mem_append_right _ List.mem_cons_self)
    rw [hy] at hr
    cases hr

theorem Faultless.concat (h : Faultless reader done) {x : Entry V}
    (hx : ∀ e, ¬ Offends reader done x e) : Faultless reader (done ++ [x]) := by
  have hnew : (∀ e, x ≠ .broken e) ∧ (keys (done ++ [x])).Nodup ∧
      ∀ key value, x = .pair (Key.name key) value → ∃ y, reader.setting key value = .ok y := by
    rw [keys_concat]
    obtain ⟨e, he⟩ | ⟨name, value, rfl, hk⟩ | ⟨key, value, y, rfl, hk, hy⟩ :=
      offends_or_fits reader done x
    · exact absurd he (hx e)
    · refine ⟨nofun, ?_, fun key value' he => ?_⟩
      · simpa [Entry.key?, hk] using h.distinct
      · cases he
        rw [Key.ofName?_name] at hk
        cases hk
    · refine ⟨nofun, ?_, fun key' value' he => ?_⟩
      · rw [Entry.key?, Key.ofName?_name, Option.toList_some, ← List.concat_eq_append]
        exact h.distinct.concat hk
      · obtain ⟨hname, rfl⟩ := Entry.pair.inj he
        exact ⟨y, Key.name_injective hname ▸ hy⟩
  refine ⟨fun e hm => ?_, hnew.2.1, fun key value hm => ?_⟩
  · obtain hm | hm := List.mem_append.mp hm
    · exact h.unbroken e hm
    · exact hnew.1 e (List.mem_singleton.mp hm).symm
  · obtain hm | hm := List.mem_append.mp hm
    · exact h.reads key value hm
    · exact hnew.2.2 key value (List.mem_singleton.mp hm).symm

/-- Either no entry is at fault, or one is the first. -/
theorem faultless_or_firstOffence (reader : Reader V) (entries : List (Entry V)) :
    Faultless reader entries ∨ ∃ e, FirstOffence reader entries e := by
  induction entries using List.reverseRecOn with
  | nil => exact .inl (faultless_nil reader)
  | append_singleton done x ih =>
    obtain hdone | ⟨e, before, y, after, rfl, hbefore, ho⟩ := ih
    · by_cases hx : ∃ e, Offends reader done x e
      · obtain ⟨e, he⟩ := hx
        exact .inr ⟨e, done, x, [], rfl, hdone, he⟩
      · exact .inl (hdone.concat (not_exists.mp hx))
    · exact .inr ⟨e, before, y, after ++ [x], by simp, hbefore, ho⟩

/-! ### Reading entries -/

namespace Given

/-- The setting that is given for a key. -/
def setting? (g : Given) : Key → Option Change
  | .optimization => g.optimization.map .optimization
  | .verify => g.verify.map .verify
  | .stem => g.stem.map .stem
  | .keepText => g.keepText.map .keepText

variable {g : Given}

theorem has_eq (g : Given) (key : Key) : g.has key = (g.setting? key).isSome := by
  cases key <;> simp [has, setting?]

theorem setting_settings (g : Given) (key : Key) :
    g.settings.setting key = (g.setting? key).getD key.default := by
  cases key
  · cases h : g.optimization <;> simp [settings, Settings.setting, setting?, h, Key.default]
  · cases h : g.verify <;> simp [settings, Settings.setting, setting?, h, Key.default]
  · cases h : g.stem <;> simp [settings, Settings.setting, setting?, h, Key.default]
  · cases h : g.keepText <;> simp [settings, Settings.setting, setting?, h, Key.default]

/-- What is given after a further setting. -/
def take (g : Given) : Change → Given
  | .optimization level => { g with optimization := some level }
  | .verify on => { g with verify := some on }
  | .stem s => { g with stem := some s }
  | .keepText on => { g with keepText := some on }
  | .reset => g

theorem read_eq (g : Given) (key : Key) (value : V) :
    g.read reader key value = (reader.setting key value).map g.take := by
  cases key
  · cases h : reader.level value <;> simp [read, Reader.setting, h, Except.map, take]
  · cases h : reader.boolean value <;> simp [read, Reader.setting, h, Except.map, take]
  · cases h : reader.text value <;> simp [read, Reader.setting, h, Except.map, take]
  · cases h : reader.boolean value <;> simp [read, Reader.setting, h, Except.map, take]

theorem setting?_take {x : Change} (h : reader.setting key value = .ok x) (key' : Key) :
    (g.take x).setting? key' = if key' = key then some x else g.setting? key' := by
  have hx : ∃ s : Settings, x = s.setting key := by
    cases key <;> obtain ⟨a, -, rfl⟩ := map_eq_ok_iff.mp h
    · exact ⟨{ optimization := a }, rfl⟩
    · exact ⟨{ verify := a }, rfl⟩
    · exact ⟨{ stem := a }, rfl⟩
    · exact ⟨{ keepText := a }, rfl⟩
  obtain ⟨s, rfl⟩ := hx
  cases key <;> cases key' <;> rfl

/-- What is given is what entries write. -/
structure Reflects (reader : Reader V) (entries : List (Entry V)) (g : Given) : Prop where
  given : ∀ key value, .pair (Key.name key) value ∈ entries →
    ∃ x, reader.setting key value = .ok x ∧ g.setting? key = some x
  absent : ∀ key, key ∉ keys entries → g.setting? key = none

theorem reflects_nil (reader : Reader V) : Reflects reader [] {} :=
  ⟨fun _ _ h => absurd h List.not_mem_nil, fun key _ => by cases key <;> rfl⟩

theorem Reflects.has_eq_true_iff (hg : Reflects reader done g) :
    g.has key = true ↔ key ∈ keys done := by
  rw [has_eq]
  constructor
  · intro h
    by_contra hk
    rw [hg.absent key hk] at h
    cases h
  · intro h
    obtain ⟨value, hm⟩ := mem_keys_iff.mp h
    obtain ⟨x, -, hx⟩ := hg.given key value hm
    rw [hx]
    rfl

/-- An entry at fault ends the reading. -/
theorem Reflects.addAll_of_offends (hg : Reflects reader done g) {x : Entry V}
    (hx : Offends reader done x e) (rest : List (Entry V)) :
    addAll reader g (x :: rest) = .error e := by
  cases hx with
  | broken => rfl
  | again value hk =>
    have hadd : ∀ key, key ∈ keys done →
        g.add reader key value = .error { cause := .duplicateField key.name } := fun key hk => by
      rw [add, if_pos (hg.has_eq_true_iff.mpr hk)]
    simp [addAll, hadd _ hk]
  | misread hk hr =>
    have hfree := mt hg.has_eq_true_iff.mp hk
    simp [addAll, add, hfree, read_eq, hr, Except.map]

/-- An entry without a fault is read, or left alone where it has no meaning. -/
theorem Reflects.addAll_of_not_offends (hg : Reflects reader done g) {x : Entry V}
    (hx : ∀ e, ¬ Offends reader done x e) :
    ∃ g', Reflects reader (done ++ [x]) g' ∧
      ∀ rest, addAll reader g (x :: rest) = addAll reader g' rest := by
  obtain ⟨e, he⟩ | ⟨name, value, rfl, hk⟩ | ⟨key, value, y, rfl, hk, hy⟩ :=
    offends_or_fits reader done x
  · exact absurd he (hx e)
  · refine ⟨g, ⟨fun key value' hm => ?_, fun key hm => hg.absent key fun hm' => hm ?_⟩,
      fun rest => by simp [addAll, hk]⟩
    · obtain hm | hm := List.mem_append.mp hm
      · exact hg.given key value' hm
      · obtain ⟨rfl, -⟩ := Entry.pair.inj (List.mem_singleton.mp hm)
        rw [Key.ofName?_name] at hk
        cases hk
    · rw [keys_append]
      exact List.mem_append_left _ hm'
  · have hfree := mt hg.has_eq_true_iff.mp hk
    refine ⟨g.take y, ⟨fun key' value' hm => ?_, fun key' hm => ?_⟩,
      fun rest => by simp [addAll, add, hfree, read_eq, hy, Except.map]⟩
    · rw [setting?_take hy]
      obtain hold | hnew := List.mem_append.mp hm
      · have hne : key' ≠ key := by
          rintro rfl
          exact hk (mem_keys_iff.mpr ⟨value', hold⟩)
        rw [if_neg hne]
        exact hg.given key' value' hold
      · obtain ⟨hname, rfl⟩ := Entry.pair.inj (List.mem_singleton.mp hnew)
        obtain rfl := Key.name_injective hname
        exact ⟨y, hy, if_pos rfl⟩
    · rw [keys_append, List.mem_append, not_or] at hm
      have hne : key' ≠ key := by
        rintro rfl
        exact hm.2 (mem_keys_iff.mpr ⟨value, List.mem_singleton_self _⟩)
      rw [setting?_take hy, if_neg hne]
      exact hg.absent key' hm.1

/-- Entries without a fault are all read. -/
theorem Reflects.addAll (hg : Reflects reader done g) (h : Faultless reader (done ++ rest)) :
    ∃ g', Reflects reader (done ++ rest) g' ∧
      ∀ after, addAll reader g (rest ++ after) = addAll reader g' after := by
  induction rest generalizing done g with
  | nil => exact ⟨g, by rwa [List.append_nil], fun _ => rfl⟩
  | cons x rest ih =>
    obtain ⟨g₁, hg₁, hadd⟩ := hg.addAll_of_not_offends fun e => h.not_offends
    rw [List.append_cons] at h ⊢
    obtain ⟨g₂, hg₂, hrest⟩ := ih hg₁ h
    exact ⟨g₂, hg₂, fun after => (hadd _).trans (hrest after)⟩

end Given

/-! ### Whole documents -/

/-- The default settings are those of a document without entries. -/
theorem setting_default (key : Key) : ({} : Settings).setting key = key.default := by
  rw [← Given.settings_empty, Given.setting_settings]
  cases key <;> rfl

theorem Faultless.addAll (h : Faultless reader entries) :
    ∃ g, Given.Reflects reader entries g ∧
      ∀ after, Given.addAll reader {} (entries ++ after) = Given.addAll reader g after :=
  (Given.reflects_nil reader).addAll h

/-- The first entry at fault decides, whatever follows it. -/
theorem ofEntries_of_firstOffence (h : FirstOffence reader entries e) :
    ofEntries reader entries = .error e := by
  obtain ⟨before, x, after, rfl, hbefore, hx⟩ := h
  obtain ⟨g, hg, hadd⟩ := hbefore.addAll
  rw [ofEntries, hadd, Given.Reflects.addAll_of_offends hg hx]
  rfl

theorem ofEntries_of_faultless (h : Faultless reader entries) :
    ∃ s, Reflects reader entries s ∧ ofEntries reader entries = .ok s := by
  obtain ⟨g, hg, hadd⟩ := h.addAll
  have hall : Given.addAll reader {} entries = .ok g := by
    simpa [Given.addAll] using hadd []
  refine ⟨g.settings, ⟨fun key value hm => ?_, fun key hm => ?_⟩, by rw [ofEntries, hall]; rfl⟩
  · obtain ⟨x, hr, hx⟩ := hg.given key value hm
    rw [hr, g.setting_settings, hx]
    rfl
  · rw [g.setting_settings, hg.absent key hm]
    rfl

theorem Reflects.unique {s t : Settings} (hs : Reflects reader entries s)
    (ht : Reflects reader entries t) : s = t := by
  refine ext_setting fun key => ?_
  by_cases hk : key ∈ keys entries
  · obtain ⟨value, hm⟩ := mem_keys_iff.mp hk
    exact Except.ok.inj ((hs.given key value hm).symm.trans (ht.given key value hm))
  · rw [hs.absent key hk, ht.absent key hk]

/-- Settings that entries without a fault write are what the entries give. -/
theorem Reflects.ofEntries_eq {s : Settings} (hs : Reflects reader entries s)
    (h : Faultless reader entries) : ofEntries reader entries = .ok s := by
  obtain ⟨t, ht, he⟩ := ofEntries_of_faultless h
  rw [he, hs.unique ht]

/-! ### Keys without meaning, and the order of the others -/

/-- Whether an entry has a meaning or a fault. -/
def Entry.matters : Entry V → Bool
  | .pair name _ => (Key.ofName? name).isSome
  | .broken _ => true

theorem Given.addAll_filter (g : Given) (entries : List (Entry V)) :
    addAll reader g (entries.filter Entry.matters) = addAll reader g entries := by
  induction entries generalizing g with
  | nil => rfl
  | cons x rest ih =>
    cases x with
    | broken e => rfl
    | pair name value =>
      cases hk : Key.ofName? name with
      | none =>
        rw [List.filter_cons_of_neg (by simp [Entry.matters, hk]), ih]
        simp [addAll, hk]
      | some key =>
        rw [List.filter_cons_of_pos (by simp [Entry.matters, hk])]
        simp only [addAll, hk]
        cases g.add reader key value with
        | error e => rfl
        | ok g' => exact ih g'

theorem ofEntries_filter (reader : Reader V) (entries : List (Entry V)) :
    ofEntries reader (entries.filter Entry.matters) = ofEntries reader entries :=
  congrArg (Except.map Given.settings) (Given.addAll_filter {} entries)

theorem Faultless.filter (h : Faultless reader entries) :
    Faultless reader (entries.filter Entry.matters) := by
  refine ⟨fun e hm => h.unbroken e (List.mem_of_mem_filter hm), ?_,
    fun key value hm => h.reads key value (List.mem_of_mem_filter hm)⟩
  exact h.distinct.sublist (List.filter_sublist.filterMap _)

theorem Faultless.perm (h : Faultless reader entries) (hp : entries.Perm entries') :
    Faultless reader entries' :=
  ⟨fun e hm => h.unbroken e (hp.mem_iff.mpr hm), (hp.filterMap _).nodup h.distinct,
    fun key value hm => h.reads key value (hp.mem_iff.mpr hm)⟩

theorem Reflects.perm {s : Settings} (hs : Reflects reader entries s)
    (hp : entries.Perm entries') : Reflects reader entries' s :=
  ⟨fun key value hm => hs.given key value (hp.mem_iff.mpr hm),
    fun key hk => hs.absent key fun hm => hk ((hp.filterMap _).mem_iff.mp hm)⟩

/-- If no entry is at fault, only the entries with a meaning matter, in whatever order. -/
theorem Faultless.ofEntries_eq (h : Faultless reader entries)
    (hp : (entries.filter Entry.matters).Perm (entries'.filter Entry.matters)) :
    ofEntries reader entries = ofEntries reader entries' := by
  obtain ⟨s, hs, he⟩ := ofEntries_of_faultless h.filter
  rw [← ofEntries_filter, he, ← ofEntries_filter, (hs.perm hp).ofEntries_eq (h.filter.perm hp)]

/-! ### Other values -/

/-- The entry with another value, or with a fault that is told otherwise. -/
def Entry.map {W : Type} (f : V → W) (m : DataError → DataError) : Entry V → Entry W
  | .pair name value => .pair name (f value)
  | .broken e => .broken (m e)

/-- Values that are read alike, but for how faults are told, give the same settings. -/
theorem ofEntries_map {W : Type} {reader' : Reader W} {f : V → W} {m : DataError → DataError}
    (hm : ∀ key, m { cause := .duplicateField (Key.name key) } =
      { cause := .duplicateField (Key.name key) })
    (hf : ∀ key value, reader'.setting key (f value) = (reader.setting key value).mapError m)
    (entries : List (Entry V)) :
    ofEntries reader' (entries.map (Entry.map f m)) = (ofEntries reader entries).mapError m := by
  have hall : ∀ g, Given.addAll reader' g (entries.map (Entry.map f m)) =
      (Given.addAll reader g entries).mapError m := by
    induction entries with
    | nil => exact fun g => rfl
    | cons x rest ih =>
      intro g
      cases x with
      | broken e => rfl
      | pair name value =>
        rw [List.map_cons]
        cases hk : Key.ofName? name with
        | none =>
          simp only [Entry.map, Given.addAll, hk]
          exact ih g
        | some key =>
          have hadd : g.add reader' key (f value) = (g.add reader key value).mapError m := by
            unfold Given.add
            split
            · exact congrArg Except.error (hm key).symm
            · rw [Given.read_eq, hf, Given.read_eq]
              cases reader.setting key value <;> rfl
          simp only [Entry.map, Given.addAll, hk, hadd]
          cases g.add reader key value with
          | error e => rfl
          | ok g' => exact ih g'
  rw [ofEntries, hall, ofEntries]
  cases Given.addAll reader {} entries <;> rfl

end FusedKernel.Settings
