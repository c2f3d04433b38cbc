import FusedKernel.Proofs.Settings.Values
import FusedKernel.Proofs.Toml.Distinct
import FusedKernel.Proofs.Workbench.Stems
import FusedKernel.Proofs.Yaml.Pairs

/-! Settings follow their document. What a text gives is decided by its entries alone, in both
formats: the first entry at fault is reported, and else the settings that the entries write are
given, if their stem can be used. Positions of faults are left out of account, as they change with
the text. -/
namespace FusedKernel.Settings

/-! ### Results of entries -/

/-- The fault without its position. -/
def DataError.bare (e : DataError) : DataError := { e with located := true }

/-- The error without its position. -/
def Error.bare : Error → Error
  | .data format e => .data format e.bare
  | e => e

/-- A result is what the entries of a document call for. -/
structure Follows {V : Type} (format : Format) (reader : Reader V) (entries : List (Entry V))
    (result : Except Error Settings) : Prop where
  decided : Faultless reader entries ∨ ∃ e, FirstOffence reader entries e
  fault : ∀ e, FirstOffence reader entries e →
    result.mapError Error.bare = .error (.data format e.bare)
  settings : Faultless reader entries → ∃ s, Reflects reader entries s ∧
    result = if Identifier s.stem then .ok s else .error (.invalidStem s.stem)

/-- Entries differ in keys without meaning only, or, if none is at fault, also in their order. -/
def Alike {V : Type} (reader : Reader V) (entries entries' : List (Entry V)) : Prop :=
  entries.filter Entry.matters = entries'.filter Entry.matters ∨
    Faultless reader entries ∧
      (entries.filter Entry.matters).Perm (entries'.filter Entry.matters)

theorem ofData_ok (format : Format) (s : Settings) :
    ofData format (.ok s) =
      if Identifier s.stem then .ok s else .error (.invalidStem s.stem) := by
  simp only [ofData, validated, validate_eq]
  split <;> split <;> simp_all

theorem mapError_bare_ofData (format : Format) (data : Except DataError Settings) :
    (ofData format data).mapError Error.bare = ofData format (data.mapError DataError.bare) := by
  cases data with
  | error e => rfl
  | ok s =>
    have hok : (Except.ok s : Except DataError Settings).mapError DataError.bare = .ok s := rfl
    rw [hok, ofData_ok]
    split <;> rfl

section
variable {V : Type} {format : Format} {reader : Reader V} {entries entries' : List (Entry V)}
  {result : Except Error Settings}

theorem mapError_bare_mapError_bare (result : Except Error Settings) :
    (result.mapError Error.bare).mapError Error.bare = result.mapError Error.bare := by
  cases result with
  | ok s => rfl
  | error e => cases e <;> rfl

/-- Settings that cannot be used are reported without a position. -/
theorem eq_of_mapError_bare {s : Settings}
    (h : result.mapError Error.bare = ofData format (.ok s)) :
    result = ofData format (.ok s) := by
  rw [ofData_ok] at h ⊢
  cases result with
  | ok s' => exact h
  | error e =>
    split at h
    · cases h
    next hs =>
      rw [if_neg hs]
      cases e <;> cases h
      rfl

theorem follows_ofData (format : Format) (reader : Reader V) (entries : List (Entry V)) :
    Follows format reader entries (ofData format (ofEntries reader entries)) := by
  refine ⟨faultless_or_firstOffence reader entries, fun e he => ?_, fun hf => ?_⟩
  · rw [ofEntries_of_firstOffence he]
    rfl
  · obtain ⟨s, hs, he⟩ := ofEntries_of_faultless hf
    exact ⟨s, hs, he ▸ ofData_ok format s⟩

theorem follows_of_mapError_eq
    (h : result.mapError Error.bare = ofData format (ofEntries reader entries)) :
    Follows format reader entries result := by
  have hdata := follows_ofData format reader entries
  refine ⟨hdata.decided, fun e he => ?_, fun hf => ?_⟩
  · rw [← mapError_bare_mapError_bare, h]
    exact hdata.fault e he
  · obtain ⟨s, hs, he⟩ := ofEntries_of_faultless hf
    rw [he] at h
    exact ⟨s, hs, (eq_of_mapError_bare h).trans (ofData_ok format s)⟩

theorem Alike.ofEntries_eq (h : Alike reader entries entries') :
    ofEntries reader entries = ofEntries reader entries' := by
  obtain h | ⟨hf, hp⟩ := h
  · rw [← ofEntries_filter, h, ofEntries_filter]
  · exact hf.ofEntries_eq hp

end

/-! ### TOML -/

namespace Toml

open FusedKernel.Toml (Value Entries)

/-- The entries of the root table. -/
def entries (root : Entries) : List (Entry Value) := root.map fun e => .pair e.1 e.2

theorem ofToml_eq {s : String} {root : Entries} (h : FusedKernel.Toml.parse s = .ok root) :
    ofToml s = ofData .toml (ofEntries reader (entries root)) := by
  rw [ofToml, read, h]
  rfl

theorem nodup_keys {root : Entries} (h : root.Distinct) : (keys (entries root)).Nodup := by
  have hkeys : keys (entries root) = (root.map Prod.fst).filterMap Key.ofName? := by
    rw [keys, entries, List.filterMap_map, List.filterMap_map]
    rfl
  rw [hkeys]
  refine List.Nodup.filterMap (fun name name' key hk hk' => ?_) h
  rw [← Key.name_of_ofName? hk, Key.name_of_ofName? hk']

end Toml

/-! ### YAML -/

namespace Yaml

open FusedKernel.Yaml (Ref Item Document Stream isNode_of_ofText)

/-- An alias without the number of its anchor. -/
def bareRef (r : Ref) : Ref := { r with anchor := r.anchor.map fun _ => 0 }

/-- A value without positions, nor the number of its anchor. -/
def Placed.bare (p : Placed) : Placed :=
  { p with node := p.node.map bareRef, located := true }

/-- The entry of a pair, as it is read up to positions. A key that is a collection cannot be read,
whatever it is the key of. -/
def entryOf (p : FusedKernel.Yaml.Pair) : Entry Placed :=
  match p.key.head with
  | .scalar _ _ text =>
    let key := String.ofList text
    .pair key ⟨if p.key.isAliased then "?" else key, some (bareRef p.value), true⟩
  | head => .broken { cause := unexpected .key head }

/-- A text is one whole document with these pairs at its root. -/
def Holds (s : String) (pairs : List FusedKernel.Yaml.Pair) : Prop :=
  ∃ events tag, Stream.ofText s.toList = .document events true ∧
    (Document.ofEvents events true).root = some (.mapping tag) ∧
    (Document.ofEvents events true).whole = true ∧
    (Document.ofEvents events true).items = pairs.map FusedKernel.Yaml.Pair.item

/-- A text is one whole document with a mapping at its root. -/
def IsMapping (s : String) : Prop :=
  ∃ events tag, Stream.ofText s.toList = .document events true ∧
    (Document.ofEvents events true).root = some (.mapping tag) ∧
    (Document.ofEvents events true).whole = true

theorem IsMapping.exists_holds {s : String} (h : IsMapping s) : ∃ pairs, Holds s pairs := by
  obtain ⟨events, tag, hs, hroot, hwhole⟩ := h
  obtain ⟨pairs, hitems⟩ := (isNode_of_ofText hs).exists_pairs hroot hwhole
  exact ⟨pairs, events, tag, hs, hroot, hwhole, hitems⟩

theorem read_bare {α : Type} (p : Placed) (f : FusedKernel.Yaml.Head → Except Cause α) :
    p.bare.read f = (p.read f).mapError DataError.bare := by
  obtain ⟨place, node, located⟩ := p
  cases node with
  | none => rfl
  | some node =>
    have hhead : (bareRef node).head = node.head := rfl
    simp only [Placed.read, Placed.bare, Option.map_some, hhead]
    cases f node.head <;> rfl

theorem level_bare (p : Placed) : level p.bare = (level p).mapError DataError.bare := by
  have hname : p.bare.tagName? = p.tagName? := by
    obtain ⟨place, node, located⟩ := p
    cases node <;> rfl
  have haliased : p.bare.isAliased = p.isAliased := by
    obtain ⟨place, node, located⟩ := p
    cases node with
    | none => rfl
    | some node => cases h : node.anchor <;> simp [Placed.isAliased, Placed.bare, bareRef,
        FusedKernel.Yaml.Ref.isAliased, h]
  unfold level
  rw [hname, haliased]
  cases p.tagName? with
  | none => exact read_bare p levelOf
  | some name =>
    dsimp only
    cases Optimization.ofName? name with
    | none => rfl
    | some level =>
      dsimp only
      rw [read_bare]
      cases p.read noContent <;> rfl

theorem setting_bare (key : Key) (p : Placed) :
    reader.setting key p.bare = (reader.setting key p).mapError DataError.bare := by
  cases key with
  | optimization =>
    simp only [Reader.setting, reader, level_bare]
    cases level p <;> rfl
  | verify | keepText =>
    simp only [Reader.setting, reader, read_bare]
    cases p.read booleanOf <;> rfl
  | stem =>
    simp only [Reader.setting, reader, read_bare]
    cases p.read textOf <;> rfl

theorem map_entry_item (keyAtStart : Bool) (p : FusedKernel.Yaml.Pair) :
    (entry keyAtStart p.item).map Placed.bare DataError.bare = entryOf p := by
  obtain ⟨⟨head, anchor⟩, value⟩ := p
  cases head <;> rfl

theorem mapError_bare_ofYaml {s : String} {pairs : List FusedKernel.Yaml.Pair}
    (h : Holds s pairs) :
    (ofYaml s).mapError Error.bare = ofData .yaml (ofEntries reader (pairs.map entryOf)) := by
  obtain ⟨events, tag, hs, hroot, hwhole, hitems⟩ := h
  have hentries : ofEntries reader (pairs.map entryOf) =
      (ofRoot (FusedKernel.Yaml.startsWithAnchoredKey s.toList events)
        (Document.ofEvents events true)).mapError DataError.bare := by
    simp only [ofRoot, hroot, hitems]
    refine Eq.trans ?_ (ofEntries_map (fun _ => rfl) setting_bare _)
    simp only [List.map_map]
    exact congrArg _ (List.map_congr_left fun p _ => (map_entry_item _ p).symm)
  rw [ofYaml, mapError_bare_ofData, hentries, read, hs]
  dsimp only
  cases hr : ofRoot (FusedKernel.Yaml.startsWithAnchoredKey s.toList events)
      (Document.ofEvents events true) with
  | error e =>
    have hunlocated : (unlocated (FusedKernel.Yaml.startsWithNode s.toList) e).bare = e.bare := by
      unfold unlocated
      split <;> rfl
    exact congrArg (fun e => ofData .yaml (.error e)) hunlocated
  | ok s =>
    dsimp only
    rw [if_pos hwhole]

end Yaml

/-! ### Both formats -/

open FusedKernel.Toml (parse)

/-- Settings follow the entries of their document, up to the positions of faults. In TOML no key
comes twice; in YAML the root is read as pairs of which nothing is missing. Keys without meaning may
be put in, taken out and moved, and if no entry is at fault the others may be moved too. A value
writes a setting exactly if it is of its type. -/
theorem follows_document :
    (∀ s root, parse s = .ok root → (keys (Toml.entries root)).Nodup ∧
      Follows .toml Toml.reader (Toml.entries root) (ofToml s)) ∧
    (∀ s, Yaml.IsMapping s → ∃ pairs, Yaml.Holds s pairs) ∧
    (∀ s pairs, Yaml.Holds s pairs →
      Follows .yaml Yaml.reader (pairs.map Yaml.entryOf) (ofYaml s)) ∧
    (∀ s s' root root', parse s = .ok root → parse s' = .ok root' →
      Alike Toml.reader (Toml.entries root) (Toml.entries root') → ofToml s = ofToml s') ∧
    (∀ s s' pairs pairs', Yaml.Holds s pairs → Yaml.Holds s' pairs' →
      Alike Yaml.reader (pairs.map Yaml.entryOf) (pairs'.map Yaml.entryOf) →
      (ofYaml s).mapError Error.bare = (ofYaml s').mapError Error.bare) ∧
    (∀ key value x, Toml.reader.setting key value = .ok x ↔ Toml.typing.Gives key value x) ∧
    ∀ key value x, Yaml.reader.setting key value = .ok x ↔ Yaml.typing.Gives key value x := by
  refine ⟨fun s root h => ⟨?_, ?_⟩, fun s h => h.exists_holds, fun s pairs h => ?_,
    fun s s' root root' h h' ha => ?_, fun s s' pairs pairs' h h' ha => ?_,
    fun _ _ _ => Toml.respects_typing.setting_eq_ok_iff,
    fun _ _ _ => Yaml.respects_typing.setting_eq_ok_iff⟩
  · exact Toml.nodup_keys (FusedKernel.Toml.distinct_parse h)
  · rw [Toml.ofToml_eq h]
    exact follows_ofData .toml Toml.reader (Toml.entries root)
  · exact follows_of_mapError_eq (Yaml.mapError_bare_ofYaml h)
  · rw [Toml.ofToml_eq h, Toml.ofToml_eq h', ha.ofEntries_eq]
  · rw [Yaml.mapError_bare_ofYaml h, Yaml.mapError_bare_ofYaml h', ha.ofEntries_eq]

/-- A key without meaning, after another key and before it. -/
theorem follows_document_unknown_key :
    Follows .toml Toml.reader [.pair "capture_ir" (.boolean true), .pair "x" (.integer 1)]
      (ofToml "capture_ir = true\nx = 1") ∧
    ofToml "capture_ir = true\nx = 1" = ofToml "x = 1\ncapture_ir = true" ∧
    (∃ pairs, Yaml.Holds "x: 1\ncapture_ir: true" pairs) ∧
    Follows .yaml Yaml.reader [.pair "x" ⟨"x", some ⟨.scalar none .plain ['1'], none⟩, true⟩,
        .pair "capture_ir" ⟨"capture_ir", some ⟨.scalar none .plain "true".toList, none⟩, true⟩]
      (ofYaml "x: 1\ncapture_ir: true") ∧
    (ofYaml "x: 1\ncapture_ir: true").mapError Error.bare =
      (ofYaml "capture_ir: true\nx: 1").mapError Error.bare := by
  obtain ⟨htoml, hpairs, hyaml, hsame, hsame', -⟩ := follows_document
  have hafter : parse "capture_ir = true\nx = 1" =
      .ok [("capture_ir", .boolean true), ("x", .integer 1)] := rfl
  have hbefore : parse "x = 1\ncapture_ir = true" =
      .ok [("x", .integer 1), ("capture_ir", .boolean true)] := rfl
  let x : FusedKernel.Yaml.Pair :=
    ⟨⟨.scalar none .plain ['x'], none⟩, ⟨.scalar none .plain ['1'], none⟩⟩
  let capture : FusedKernel.Yaml.Pair :=
    ⟨⟨.scalar none .plain "capture_ir".toList, none⟩, ⟨.scalar none .plain "true".toList, none⟩⟩
  have hx : Yaml.Holds "x: 1\ncapture_ir: true" [x, capture] := ⟨_, none, rfl, rfl, rfl, rfl⟩
  have hy : Yaml.Holds "capture_ir: true\nx: 1" [capture, x] := ⟨_, none, rfl, rfl, rfl, rfl⟩
  have hmapping : Yaml.IsMapping "x: 1\ncapture_ir: true" := ⟨_, none, rfl, rfl, rfl⟩
  exact ⟨(htoml _ _ hafter).2, hsame _ _ _ _ hafter hbefore (.inl rfl),
    hpairs _ hmapping, hyaml _ _ hx, hsame' _ _ _ _ hx hy (.inl rfl)⟩

/-- A key that is a collection is no key without meaning. -/
theorem ofYaml_collection_key :
    Yaml.Holds "[a]: 1" [⟨⟨.sequence none, none⟩, ⟨.scalar none .plain ['1'], none⟩⟩] ∧
    ofYaml "[a]: 1" =
      .error (.data .yaml { cause := .invalidType .sequence .key, located := false }) :=
  ⟨⟨_, none, rfl, rfl, rfl, rfl⟩, rfl⟩

end FusedKernel.Settings
