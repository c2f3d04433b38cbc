import FusedKernel.Proofs.Settings.Following
import FusedKernel.Proofs.Toml.Lines
import FusedKernel.Proofs.Yaml.Lines

/-! Settings as they are written and read again. A line for each setting, in any order, gives the
settings back in both formats, and lines of settings that have their default may be left out. -/
namespace FusedKernel.Settings

/-! ### Writing -/

/-- The value of a setting as it is written, with something around texts. -/
def written (s : Settings) (quote : String) : Key → String
  | .optimization => quote ++ s.optimization.setting ++ quote
  | .verify => if s.verify then "true" else "false"
  | .stem => quote ++ s.stem ++ quote
  | .keepText => if s.keepText then "true" else "false"

def tomlLine (s : Settings) (key : Key) : String := key.name ++ " = " ++ s.written "\"" key

def yamlLine (s : Settings) (key : Key) : String := key.name ++ ": " ++ s.written "" key

variable {s : Settings} {kept : List Key}

/-- Entries that write settings, each once, give the settings if the others have their defaults. -/
theorem ofEntries_written {V : Type} {reader : Reader V} {value : Key → V}
    (hr : ∀ key, reader.setting key (value key) = .ok (s.setting key)) (hd : kept.Nodup)
    (hk : ∀ key, key ∉ kept → s.setting key = key.default) :
    ofEntries reader (kept.map fun key => .pair key.name (value key)) = .ok s := by
  have hkeys : keys (kept.map fun key => Entry.pair key.name (value key)) = kept := by
    have hself : (Entry.key? ∘ fun key => Entry.pair key.name (value key)) = some :=
      funext Key.ofName?_name
    rw [keys, List.filterMap_map, hself, List.filterMap_some]
  have hread : ∀ key v, .pair (Key.name key) v ∈
      kept.map (fun key => Entry.pair key.name (value key)) →
      reader.setting key v = .ok (s.setting key) := fun key v hm => by
    obtain ⟨key', -, he⟩ := List.mem_map.mp hm
    obtain ⟨hname, rfl⟩ := Entry.pair.inj he
    rw [Key.name_injective hname, hr]
  refine Reflects.ofEntries_eq ⟨hread, fun key hm => hk key (hkeys ▸ hm)⟩
    ⟨fun e hm => ?_, hkeys.symm ▸ hd, fun key v hm => ⟨_, hread key v hm⟩⟩
  obtain ⟨key, -, he⟩ := List.mem_map.mp hm
  cases he

theorem Identifier.exists_cons {t : String} (ht : Identifier t) :
    ∃ c r, t.toList = c :: r ∧ c ≠ '-' := by
  obtain ⟨c, r, he⟩ := List.exists_cons_of_ne_nil (mt String.toList_eq_nil_iff.mp ht.nonempty)
  refine ⟨c, r, he, ?_⟩
  rintro rfl
  have hpart := isIdentifierPart_iff.mpr (ht.part '-' (he ▸ List.mem_cons_self))
  revert hpart
  decide

theorem Identifier.word {t : String} (ht : Identifier t) :
    ∀ c ∈ t.toList, (c.isAlphanum || c == '_' || c == '-') = true := fun c hc => by
  have hpart : isIdentifierPart c = true := isIdentifierPart_iff.mpr (ht.part c hc)
  exact Bool.or_eq_true_iff.mpr (.inl hpart)

theorem identifier_name (key : Key) : Identifier key.name := by
  cases key <;> decide

theorem identifier_level (level : Optimization) : Identifier level.setting := by
  cases level <;> decide

/-- Without quotes, all values are words. -/
theorem identifier_written (hs : Identifier s.stem) (key : Key) :
    Identifier (s.written "" key) := by
  have hboolean : ∀ b : Bool, Identifier (if b then "true" else "false") := by decide
  cases key with
  | optimization =>
    rw [written, String.empty_append, String.append_empty]
    exact identifier_level s.optimization
  | stem =>
    rw [written, String.empty_append, String.append_empty]
    exact hs
  | verify | keepText => exact hboolean _

/-! ### TOML -/

namespace Toml

open FusedKernel.Toml (Value Written Writes IsBare isBasicChar writes_text writes_boolean
  isBasicChar_of_isBareKeyChar)

def valueOf (s : Settings) : Key → Value
  | .optimization => .text s.optimization.setting
  | .verify => .boolean s.verify
  | .stem => .text s.stem
  | .keepText => .boolean s.keepText

theorem setting_valueOf (s : Settings) (key : Key) :
    reader.setting key (valueOf s key) = .ok (s.setting key) := by
  refine respects_typing.setting_eq_ok_iff.mpr ?_
  cases key with
  | optimization => exact .optimization (.inl rfl)
  | verify => exact .verify rfl
  | stem => exact .stem rfl
  | keepText => exact .keepText rfl

def lineOf (s : Settings) (key : Key) : Written :=
  ⟨key.name.toList, (s.written "\"" key).toList, valueOf s key⟩

theorem isBare_of_identifier {t : String} (ht : Identifier t) : IsBare t.toList :=
  ⟨mt String.toList_eq_nil_iff.mp ht.nonempty, ht.word⟩

theorem writes_identifier {t : String} (ht : Identifier t) :
    Writes ("\"" ++ t ++ "\"").toList (.text t) := by
  have hlist : ("\"" ++ t ++ "\"").toList = '"' :: (t.toList ++ ['"']) := by
    simp
  have hwrites := writes_text (isBare_of_identifier ht).nonempty fun c hc =>
    isBasicChar_of_isBareKeyChar (ht.word c hc)
  rwa [String.ofList_toList, ← hlist] at hwrites

theorem isSound_lineOf (hs : Identifier s.stem) (key : Key) : (lineOf s key).IsSound := by
  refine ⟨isBare_of_identifier (identifier_name key), ?_⟩
  cases key with
  | optimization => exact writes_identifier (identifier_level s.optimization)
  | stem => exact writes_identifier hs
  | verify | keepText => exact writes_boolean _

theorem ofToml_lines (hs : Identifier s.stem) (hd : kept.Nodup)
    (hk : ∀ key, key ∉ kept → s.setting key = key.default) (ended : Bool) :
    ofToml (Text.ofLines (kept.map s.tomlLine) ended) = .ok s := by
  have htext : (kept.map (lineOf s)).map (fun x => String.ofList x.text) = kept.map s.tomlLine := by
    rw [List.map_map]
    refine List.map_congr_left fun key _ => String.toList_inj.mp ?_
    simp [lineOf, Written.text, tomlLine]
  have hsound : ∀ x ∈ kept.map (lineOf s), x.IsSound := fun x hx => by
    obtain ⟨key, -, rfl⟩ := List.mem_map.mp hx
    exact isSound_lineOf hs key
  have hkeys : ((kept.map (lineOf s)).map fun x => String.ofList x.key) = kept.map Key.name := by
    rw [List.map_map]
    exact List.map_congr_left fun key _ => String.ofList_toList
  have hparse := FusedKernel.Toml.parse_ofLines hsound
    (hkeys.symm ▸ hd.map Key.name_injective) ended
  rw [htext] at hparse
  have hentries : entries ((kept.map (lineOf s)).map fun x => (String.ofList x.key, x.read)) =
      kept.map fun key => .pair key.name (valueOf s key) := by
    rw [entries, List.map_map, List.map_map]
    refine List.map_congr_left fun key _ => ?_
    exact congrArg (Entry.pair · _) String.ofList_toList
  rw [ofToml_eq hparse, hentries, ofEntries_written (setting_valueOf s) hd hk, ofData_ok,
    if_pos hs]

end Toml

/-! ### YAML -/

namespace Yaml

open FusedKernel.Yaml (Line IsWord octetsOf Document Stream ofText_lines ofEvents_lines)

/-- The value of a plain scalar under its key. -/
def placedOf (s : Settings) (key : Key) : Placed :=
  ⟨key.name, some ⟨.scalar none .plain (s.written "" key).toList, none⟩, true⟩

theorem setting_placedOf (s : Settings) (key : Key) :
    reader.setting key (placedOf s key) = .ok (s.setting key) := by
  have hboolean : ∀ b : Bool, (if b then "true" else "false").toList ∈ booleanWords b := by decide
  refine respects_typing.setting_eq_ok_iff.mpr ?_
  cases key with
  | optimization =>
    have htext : s.written "" .optimization = s.optimization.setting := by
      rw [written, String.empty_append, String.append_empty]
    exact .optimization (.inr ⟨rfl, _, rfl, htext ▸ .scalar none .plain⟩)
  | stem =>
    have htext : s.written "" .stem = s.stem := by
      rw [written, String.empty_append, String.append_empty]
    exact .stem ⟨_, rfl, htext ▸ .scalar none .plain⟩
  | verify => exact .verify ⟨_, rfl, .plain none (hboolean s.verify)⟩
  | keepText => exact .keepText ⟨_, rfl, .plain none (hboolean s.keepText)⟩

def lineOf (s : Settings) (key : Key) : Line := ⟨key.name.toList, (s.written "" key).toList⟩

theorem isWord_of_identifier {t : String} (ht : Identifier t) : IsWord t.toList :=
  ⟨ht.exists_cons, ht.word⟩

theorem isSound_lineOf (hs : Identifier s.stem) (key : Key) : (lineOf s key).IsSound := by
  refine ⟨isWord_of_identifier (identifier_name key), ?_,
    isWord_of_identifier (identifier_written hs key)⟩
  have hshort : ∀ key : Key, octetsOf key.name.toList ≤ 1024 := fun key => by
    cases key <;> decide
  exact hshort key

theorem entryOf_pair (s : Settings) (key : Key) :
    entryOf (lineOf s key).pair = .pair key.name (placedOf s key) := by
  have hname : String.ofList key.name.toList = key.name := String.ofList_toList
  have hentry : entryOf (lineOf s key).pair = .pair (String.ofList key.name.toList)
      ⟨String.ofList key.name.toList,
        some ⟨.scalar none .plain (s.written "" key).toList, none⟩, true⟩ := rfl
  rw [hentry, hname, placedOf]

theorem holds_lines (hs : Identifier s.stem) (key : Key) (kept : List Key) (ended : Bool) :
    Holds (Text.ofLines ((key :: kept).map s.yamlLine) ended)
      (((key :: kept).map (lineOf s)).map Line.pair) := by
  have hsound : ∀ x ∈ (key :: kept).map (lineOf s), x.IsSound := fun x hx => by
    obtain ⟨key, -, rfl⟩ := List.mem_map.mp hx
    exact isSound_lineOf hs key
  have hline : ∀ key, String.ofList (lineOf s key).text = s.yamlLine key := fun key => by
    refine String.toList_inj.mp ?_
    simp [lineOf, Line.text, yamlLine]
  have hevents : Stream.ofText (Text.ofLines ((key :: kept).map s.yamlLine) ended).toList =
      .document (.mappingStart none none ::
        (((key :: kept).map (lineOf s)).flatMap Line.events ++ [.mappingEnd])) true := by
    have htext := Text.toList_ofLines (lineOf s key).text ((kept.map (lineOf s)).map Line.text)
      ended
    have hlines : ((lineOf s key).text :: (kept.map (lineOf s)).map Line.text).map String.ofList =
        (key :: kept).map s.yamlLine := by
      rw [← List.map_cons, ← List.map_cons, List.map_map, List.map_map]
      exact List.map_congr_left fun key _ => hline key
    rw [hlines] at htext
    rw [htext]
    exact ofText_lines hsound ended
  have hroot := ofEvents_lines ((key :: kept).map (lineOf s))
  exact ⟨_, none, hevents, congrArg Document.root hroot, congrArg Document.whole hroot,
    congrArg Document.items hroot⟩

theorem ofYaml_lines (hs : Identifier s.stem) (hd : kept.Nodup)
    (hk : ∀ key, key ∉ kept → s.setting key = key.default) (ended : Bool) :
    ofYaml (Text.ofLines (kept.map s.yamlLine) ended) = .ok s := by
  cases kept with
  | nil =>
    have hdefault : s = {} := ext_setting fun key => by
      rw [hk key List.not_mem_nil, setting_default]
    subst hdefault
    cases ended <;> rfl
  | cons key kept =>
    have hbare := mapError_bare_ofYaml (holds_lines hs key kept ended)
    have hentries : (((key :: kept).map (lineOf s)).map Line.pair).map entryOf =
        (key :: kept).map fun key => .pair key.name (placedOf s key) := by
      rw [List.map_map, List.map_map]
      exact List.map_congr_left fun key _ => entryOf_pair s key
    rw [hentries, ofEntries_written (setting_placedOf s) hd hk] at hbare
    rw [eq_of_mapError_bare hbare, ofData_ok, if_pos hs]

end Yaml

/-! ### Both formats -/

/-- Settings that can be used are read back from a line for each of them, in any order and with a
line end after the last or without, where lines of defaults may be left out. Levels are read by the
names that the code generator has for them, and by no others. -/
theorem of_written_lines (s : Settings) (hs : s.validate = .ok ()) (kept : List Key)
    (hd : kept.Nodup) (hk : ∀ key, key ∉ kept → s.setting key = key.default) (ended : Bool) :
    ofToml (Text.ofLines (kept.map s.tomlLine) ended) = .ok s ∧
    ofYaml (Text.ofLines (kept.map s.yamlLine) ended) = .ok s ∧
    (∀ v level, Toml.level v = .ok level ↔ Toml.Names v level.setting) ∧
    ∀ p level, Yaml.level p = .ok level ↔ Yaml.Names p level.setting := by
  have hstem := (validate_eq_ok_iff s).mp hs
  exact ⟨Toml.ofToml_lines hstem hd hk ended, Yaml.ofYaml_lines hstem hd hk ended,
    fun _ _ => Toml.level_eq_ok_iff, fun _ _ => Yaml.level_eq_ok_iff⟩

/-- A stem that YAML reads as nothing elsewhere, before other lines, and one setting left out. -/
theorem of_written_lines_null :
    let s : Settings := { optimization := .speedAndSize, verify := false, stem := "null" }
    ofToml "symbol_prefix = \"null\"\nopt_level = \"speed_and_size\"\nenable_verifier = false\n" =
      .ok s ∧
    ofYaml "symbol_prefix: null\nopt_level: speed_and_size\nenable_verifier: false\n" = .ok s := by
  intro s
  have hdefault : ∀ key, key ∉ [Key.stem, .optimization, .verify] →
      s.setting key = key.default := fun key hk => by
    cases key with
    | stem | optimization | verify => simp at hk
    | keepText => rfl
  obtain ⟨htoml, hyaml, -⟩ :=
    of_written_lines s (by decide) [.stem, .optimization, .verify] (by decide) hdefault true
  exact ⟨htoml, hyaml⟩

end FusedKernel.Settings
