import Mathlib.Data.List.Nodup
import FusedKernel.Toml.Document

/-! The root table of a document has no key twice. Every change of a table puts a free key at its
end, replaces a value or removes an entry; so the keys stay distinct, line by line. -/
namespace FusedKernel.Toml

section
variable {ε ε' α β : Type} {x : Except ε α} {b : β}

theorem of_map_eq_ok {f : α → β} (h : x.map f = .ok b) : ∃ a, x = .ok a ∧ f a = b := by
  cases x with
  | error e => cases h
  | ok a => exact ⟨a, rfl, Except.ok.inj h⟩

theorem of_bind_eq_ok {f : α → Except ε β} (h : x >>= f = .ok b) :
    ∃ a, x = .ok a ∧ f a = .ok b := by
  cases x with
  | error e => cases h
  | ok a => exact ⟨a, rfl, h⟩

theorem of_mapError_eq_ok {f : ε → ε'} {a : α} (h : x.mapError f = .ok a) : x = .ok a := by
  cases x with
  | error e => cases h
  | ok a => exact congrArg Except.ok (Except.ok.inj h)

end

namespace Entries

/-- No key stands twice. -/
def Distinct (entries : Entries) : Prop := (entries.map Prod.fst).Nodup

variable {entries entries' : Entries} {key : String}

theorem get?_eq_none_iff : entries.get? key = none ↔ key ∉ entries.map Prod.fst := by
  rw [get?, Option.map_eq_none_iff, List.find?_eq_none, List.mem_map]
  constructor
  · rintro h ⟨e, hm, rfl⟩
    exact h e hm (beq_self_eq_true _)
  · exact fun h e hm he => h ⟨e, hm, eq_of_beq he⟩

theorem Distinct.append (h : entries.Distinct) (hk : entries.get? key = none) (value : Value) :
    (entries.append key value).Distinct := by
  rw [Distinct, Entries.append, List.map_append]
  exact List.concat_eq_append ▸ h.concat (get?_eq_none_iff.mp hk)

theorem map_fst_replace (entries : Entries) (key : String) (value : Value) :
    (entries.replace key value).map Prod.fst = entries.map Prod.fst := by
  rw [replace, List.map_map]
  refine List.map_congr_left fun e _ => ?_
  by_cases he : e.1 = key <;> simp [he]

theorem Distinct.replace (h : entries.Distinct) (key : String) (value : Value) :
    (entries.replace key value).Distinct := by
  rw [Distinct, map_fst_replace]
  exact h

theorem Distinct.remove (h : entries.Distinct) (key : String) : (entries.remove key).Distinct :=
  (List.filter_sublist.map Prod.fst).nodup h

/-- Where a change within the tables keeps the keys distinct, it does so of the outermost one. -/
theorem Distinct.update {α : Type} {way : Way}
    {change : Origin → Entries → Except KeyFault (Entries × α)}
    (hchange : ∀ {origin entries entries' x}, change origin entries = .ok (entries', x) →
      entries.Distinct → entries'.Distinct)
    {passed path : List String} {origin : Origin} {x : α} (h : entries.Distinct)
    (hu : Entries.update way change passed path origin entries = .ok (entries', x)) :
    entries'.Distinct := by
  -- only the first key of the path counts: below it the outermost table gets one other value
  cases path with
  | nil => exact hchange hu h
  | cons key path =>
    rw [Entries.update] at hu
    split at hu
    next hk =>
      obtain ⟨⟨inner, y⟩, -, he⟩ := of_map_eq_ok hu
      obtain ⟨rfl, -⟩ := Prod.mk.inj he
      exact h.append hk _
    next origin inner hk =>
      split at hu
      · cases hu
      · obtain ⟨⟨inner, y⟩, -, he⟩ := of_map_eq_ok hu
        obtain ⟨rfl, -⟩ := Prod.mk.inj he
        exact h.replace key _
    next items hk =>
      split at hu
      · obtain ⟨⟨inner, y⟩, -, he⟩ := of_map_eq_ok hu
        obtain ⟨rfl, -⟩ := Prod.mk.inj he
        exact h.replace key _
      · cases hu
    · cases hu

theorem Distinct.put {way : Way} {origin : Origin} {table : Option (List String)}
    {path : List String} {value : Value} (h : entries.Distinct)
    (hp : entries.put way origin table path key value = .ok entries') : entries'.Distinct := by
  obtain ⟨⟨inner, ⟨⟩⟩, hu, rfl⟩ := of_map_eq_ok hp
  refine h.update (fun hc hd => ?_) hu
  split at hc
  · cases hc
  · split at hc
    next hk =>
      obtain ⟨rfl, -⟩ := Prod.mk.inj (Except.ok.inj hc)
      exact hd.append hk value
    · cases hc

end Entries

namespace Outline

open Entries (Distinct)

/-- The root table as far as it is read. -/
def rootTable (o : Outline) : Entries :=
  match o.opened with
  | .root => o.current
  | .table _ _ | .element _ _ => o.root

variable {o o' : Outline} {entries : Entries}

theorem distinct_close (h : o.rootTable.Distinct) (hc : o.close = .ok entries) :
    entries.Distinct := by
  unfold close at hc
  unfold rootTable at h
  cases ho : o.opened with
  | root =>
    simp only [ho] at h hc
    exact Except.ok.inj hc ▸ h
  | table path key =>
    simp only [ho] at h hc
    obtain ⟨⟨root, ⟨⟩⟩, hu, rfl⟩ := of_map_eq_ok hc
    refine h.update (fun hc hd => ?_) hu
    dsimp only at hc
    split at hc
    next hk =>
      obtain ⟨rfl, -⟩ := Prod.mk.inj (Except.ok.inj hc)
      exact hd.append hk _
    · cases hc
  | element path key =>
    simp only [ho] at h hc
    obtain ⟨⟨root, ⟨⟩⟩, hu, rfl⟩ := of_map_eq_ok hc
    refine h.update (fun hc hd => ?_) hu
    dsimp only at hc
    split at hc
    next hk =>
      obtain ⟨rfl, -⟩ := Prod.mk.inj (Except.ok.inj hc)
      exact hd.append hk _
    next items hk =>
      obtain ⟨rfl, -⟩ := Prod.mk.inj (Except.ok.inj hc)
      exact hd.replace key _
    · cases hc

theorem distinct_openTable {path : List String} {key : String} (h : o.rootTable.Distinct)
    (ho : o.openTable path key = .ok o') : o'.rootTable.Distinct := by
  obtain ⟨root, hclose, ho⟩ := of_bind_eq_ok ho
  obtain ⟨⟨root', current⟩, hu, ho⟩ := of_bind_eq_ok ho
  obtain rfl := Except.ok.inj ho
  refine (distinct_close h hclose).update (fun hc hd => ?_) hu
  dsimp only at hc
  split at hc
  · obtain ⟨rfl, -⟩ := Prod.mk.inj (Except.ok.inj hc)
    exact hd
  · obtain ⟨rfl, -⟩ := Prod.mk.inj (Except.ok.inj hc)
    exact hd.remove key
  · cases hc

theorem distinct_openElement {path : List String} {key : String} (h : o.rootTable.Distinct)
    (ho : o.openElement path key = .ok o') : o'.rootTable.Distinct := by
  obtain ⟨root, hclose, ho⟩ := of_bind_eq_ok ho
  obtain ⟨⟨root', current⟩, hu, ho⟩ := of_bind_eq_ok ho
  obtain rfl := Except.ok.inj ho
  refine (distinct_close h hclose).update (fun hc hd => ?_) hu
  dsimp only at hc
  split at hc
  next hk =>
    obtain ⟨rfl, -⟩ := Prod.mk.inj (Except.ok.inj hc)
    exact hd.append hk _
  · obtain ⟨rfl, -⟩ := Prod.mk.inj (Except.ok.inj hc)
    exact hd
  · cases hc

theorem distinct_add {l : Line} (h : o.rootTable.Distinct) (ha : o.add l = .ok o') :
    o'.rootTable.Distinct := by
  cases l with
  | pair path key value =>
    simp only [add] at ha
    split at ha
    next current hp =>
      obtain rfl := Except.ok.inj ha
      unfold rootTable at h ⊢
      cases ho : o.opened with
      | root =>
        simp only [ho] at h ⊢
        exact h.put hp
      | table | element => simpa only [ho] using h
    · cases ha
  | table path key => exact distinct_openTable h (of_mapError_eq_ok ha)
  | element path key => exact distinct_openElement h (of_mapError_eq_ok ha)

theorem distinct_foldlM {lines : List Line} (h : o.rootTable.Distinct)
    (hf : lines.foldlM add o = .ok o') : o'.rootTable.Distinct := by
  induction lines generalizing o with
  | nil => exact Except.ok.inj hf ▸ h
  | cons l rest ih =>
    obtain ⟨o₁, ha, hrest⟩ := of_bind_eq_ok hf
    exact ih (distinct_add h ha) hrest

end Outline

theorem distinct_parse {text : String} {entries : Entries} (h : parse text = .ok entries) :
    entries.Distinct := by
  obtain ⟨read, hlines, h⟩ := of_bind_eq_ok h
  split at h
  · cases h
  · obtain rfl := Except.ok.inj h
    obtain ⟨o, hf, hclose⟩ := of_bind_eq_ok hlines
    have hstart : ({} : Outline).rootTable.Distinct := List.nodup_nil
    exact Outline.distinct_close (Outline.distinct_foldlM hstart hf) (of_mapError_eq_ok hclose)

end FusedKernel.Toml
