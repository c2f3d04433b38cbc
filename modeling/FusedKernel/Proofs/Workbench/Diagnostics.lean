import FusedKernel.Proofs.Assembly.Linking
import FusedKernel.Proofs.Workbench.Correspondence
import FusedKernel.Proofs.Workbench.Log

/-! Diagnostics settings do not influence compilation. Of the settings only the stem matters to what
is compiled: how much to optimize, whether to verify and whether to keep texts make no difference to
any answer but to those that show a text. Both runs are related to one without diagnostics, of which
each is a relabelling. That texts are kept as the settings say is an invariant of each run alone. -/
namespace FusedKernel

/-- The settings that are left without those for diagnostics. -/
def Settings.plain (s : Settings) : Settings := { stem := s.stem }

/-- The text of the code that a handle stands for. -/
def Handle.text (h : Handle) : List String := (h.ops.toFunction h.number).lines

/-- The handle of the kernel that an image finds under a name. -/
def Image.handle? (s : Image) (name : String) : Option Handle := (s.kernel? name).map (·.handle)

theorem Image.handle?_relabel (r : Relabelling) (s : Image) (name : String) :
    (s.relabel r).handle? name = (s.handle? name).map (Handle.relabel r) := by
  rw [handle?, kernel?_relabel, handle?, Option.map_map, Option.map_map]
  rfl

theorem Assembly.Sound.handle?_link {u : Assembly} (hu : u.Sound) (name : String) :
    u.link.1.handle? name = u.handle? name := by
  rw [Image.handle?, hu.kernel?_link, Option.map_map]
  exact Option.map_id'

open Workbench in
theorem Relabelling.Mirrors.after {r : Relabelling} {w v : Workbench} {n : Nat}
    (hid : ∀ k, r.id k = k + n) (h : r.Mirrors w v) (commands : List Command) :
    r.Mirrors (w.after commands) (v.after (commands.map (Command.relabel r))) := by
  induction commands generalizing w v with
  | nil => exact h
  | cons command rest ih => exact ih (h.perform hid command)

namespace Workbench

/-- A command without diagnostics. -/
def Command.plain : Command → Command
  | .create slot settings names => .create slot (settings.map Settings.plain) names
  | command => command

/-- An answer that shows no text. -/
def Reply.withoutText : Reply → Reply
  | .text? _ => .text? none
  | .kernel k same => .kernel { k with text := none } same
  | reply => reply

/-- The settings from which a command creates an assembly, if it does. -/
def Command.created? : Command → Option Settings
  | .create slot (.ok settings) names =>
    if (Command.create slot (.ok settings) names).creates then some settings else none
  | _ => none

/-- Texts are kept as settings say. In the order of their identities, from a first one on,
assemblies were created from given settings; each of them shows the text of exactly the kernels that
it has, if its settings are to keep texts, and so does the image that it is linked into. -/
structure KeepsTexts (w : Workbench) (first : Nat) (created : List Settings) : Prop where
  assembly : ∀ (slot : Slot) u, w.assemblies[slot]? = some u →
    ∃ k settings, u.id = first + k ∧ created[k]? = some settings ∧
      ∀ name, u.text? name = if settings.keepText then (u.handle? name).map Handle.text else none
  image : ∀ (slot : Slot) s, w.images[slot]? = some s →
    ∃ k settings, s.owner = first + k ∧ created[k]? = some settings ∧
      ∀ name, s.text? name = if settings.keepText then (s.handle? name).map Handle.text else none

/-- Where two workbenches both show a text of a kernel, it is the same. -/
structure SameTexts (w v : Workbench) : Prop where
  assembly : ∀ (slot : Slot) u u', w.assemblies[slot]? = some u → v.assemblies[slot]? = some u' →
    ∀ name lines lines', u.text? name = some lines → u'.text? name = some lines' → lines = lines'
  image : ∀ (slot : Slot) s s', w.images[slot]? = some s → v.images[slot]? = some s' →
    ∀ name lines lines', s.text? name = some lines → s'.text? name = some lines' → lines = lines'

/-! ### Without diagnostics -/

/-- Identities from another one on, and no diagnostics. -/
def plainFrom (n : Nat) : Relabelling where
  id k := k + n
  settings := Settings.plain
  text _ := none
  stem _ := rfl
  kept _ _ := rfl

theorem Command.relabel_plainFrom (n : Nat) : Command.relabel (plainFrom n) = Command.plain := by
  funext command
  cases command <;> rfl

theorem Reply.relabel_plainFrom (n : Nat) (reply : Reply) :
    reply.relabel (plainFrom n) = reply.withoutText.rename (· + n) := by
  cases reply <;> rfl

theorem mirrors_plainFrom (first n : Nat) :
    (plainFrom n).Mirrors { nextId := first } { nextId := first + n } where
  same x := by
    obtain ⟨kind, slot⟩ := x
    cases kind <;> simp [Relabelling.SameAt, content]
  nextId := rfl

theorem mirrors_after (first n : Nat) (commands : List Command) :
    (plainFrom n).Mirrors (({ nextId := first } : Workbench).after commands)
      (({ nextId := first + n } : Workbench).after (commands.map Command.plain)) := by
  rw [← Command.relabel_plainFrom n]
  exact (mirrors_plainFrom first n).after (fun _ => rfl) commands

/-- The answers without texts are those to the commands without diagnostics. -/
theorem performAll_plain (first n : Nat) (commands : List Command) :
    ({ nextId := first + n } : Workbench).performAll (commands.map Command.plain) =
      (({ nextId := first } : Workbench).performAll commands).map fun x =>
        (x.1.withoutText.rename (· + n), x.2) := by
  have h := (mirrors_plainFrom first n).performAll (fun _ => rfl) commands
  rw [Command.relabel_plainFrom] at h
  simpa only [Reply.relabel_plainFrom] using h

/-! ### Texts -/

/-- An assembly that was created from settings in a list, at the place of its identity. -/
structure OfRecord (first : Nat) (created : List Settings) (u : Assembly) : Prop where
  sound : u.Sound
  place : ∃ k, u.id = first + k ∧ created[k]? = some u.settings

/-- Assemblies were created from settings in a list, and images are linked from such. -/
def Content.OfRecord (first : Nat) (created : List Settings) : Content → Prop
  | .assembly u => Workbench.OfRecord first created u
  | .handle _ => True
  | .image s => ∃ u, Workbench.OfRecord first created u ∧ s = u.link.1

variable {w : Workbench} {first : Nat} {created : List Settings} {u : Assembly} {c : Content}

theorem OfRecord.append (h : OfRecord first created u) (more : List Settings) :
    OfRecord first (created ++ more) u := by
  obtain ⟨k, hid, hk⟩ := h.place
  refine ⟨h.sound, k, hid, ?_⟩
  rw [List.getElem?_append_left (List.getElem?_eq_some_iff.mp hk).1, hk]

theorem Content.OfRecord.append (h : c.OfRecord first created) (more : List Settings) :
    c.OfRecord first (created ++ more) := by
  cases c with
  | assembly u => exact Workbench.OfRecord.append h more
  | handle _ => trivial
  | image s =>
    obtain ⟨u, hu, hs⟩ := h
    exact ⟨u, hu.append more, hs⟩

/-- An attempt to compile keeps the place and the settings. -/
theorem OfRecord.yields (h : OfRecord first created u) {a : Attempt} (ha : u.ExtendedBy a)
    (hc : Yields a c) : c.OfRecord first created := by
  cases hc with
  | assembly =>
    obtain ⟨k, hid, hk⟩ := h.place
    exact ⟨ha.sound, k, ha.id.trans hid, ha.settings ▸ hk⟩
  | handle _ => trivial

theorem OfRecord.text?_eq (h : OfRecord first created u) :
    ∃ k settings, u.id = first + k ∧ created[k]? = some settings ∧
      ∀ name, u.text? name =
        if settings.keepText then (u.handle? name).map Handle.text else none := by
  obtain ⟨k, hid, hk⟩ := h.place
  refine ⟨k, u.settings, hid, hk, fun name => ?_⟩
  have hkept : u.keptText = fun h => if u.settings.keepText then some h.text else none := rfl
  rw [h.sound.text?_eq, hkept]
  cases u.handle? name <;> cases u.settings.keepText <;> rfl

/-- All that slots hold is of record, and the next identity is the one after the record. -/
structure Records (w : Workbench) (first : Nat) (created : List Settings) : Prop where
  content : ∀ x c, w.content x = some c → c.OfRecord first created
  nextId : w.nextId = first + created.length

theorem records_start (first : Nat) : Records { nextId := first } first [] where
  content x c hx := by
    obtain ⟨kind, slot⟩ := x
    cases kind <;> simp [Workbench.content] at hx
  nextId := rfl

theorem Records.assembly (h : w.Records first created) {slot : Slot}
    (hu : w.assemblies[slot]? = some u) : OfRecord first created u :=
  h.content (.assembly, slot) (.assembly u) (by rw [Workbench.content, hu]; rfl)

theorem Records.image (h : w.Records first created) {slot : Slot} {s : Image}
    (hs : w.images[slot]? = some s) : ∃ u, OfRecord first created u ∧ s = u.link.1 :=
  h.content (.image, slot) (.image s) (by rw [Workbench.content, hs]; rfl)

theorem length_created? (command : Command) :
    command.created?.toList.length = command.creates.toNat := by
  cases command with
  | create slot settings names =>
    cases settings with
    | error e => rfl
    | ok settings =>
      rw [Command.created?]
      cases (Command.create slot (.ok settings) names).creates <;> rfl
  | _ => rfl

/-- What a command makes is of record, with the settings of the command if it creates. -/
theorem Records.makes (h : w.Records first created) {command : Command} (hc : w.Makes command c) :
    c.OfRecord first (created ++ command.created?.toList) := by
  cases hc with
  | @creation slot settings names u hu =>
    have hcreates : (Command.create slot (.ok settings) names).creates = true := by
      rw [Command.creates, Assembly.toBool_create 0 w.nextId, hu]
      rfl
    obtain rfl := Assembly.create_eq_ok hu
    refine ⟨Assembly.sound_empty _ _ _, created.length, h.nextId, ?_⟩
    rw [Command.created?, if_pos hcreates]
    exact List.getElem?_concat_length
  | compilation hu hc =>
    have hu := h.assembly hu
    exact (hu.yields (hu.sound.compileWritten _ _) hc).append _
  | compilationAs hu hc =>
    have hu := h.assembly hu
    exact (hu.yields (hu.sound.compileWrittenAs _ _ _) hc).append _
  | linking hu => exact ⟨_, (h.assembly hu).append _, rfl⟩

theorem Records.perform (h : w.Records first created) (command : Command) :
    (w.perform command).bench.Records first (created ++ command.created?.toList) := by
  refine ⟨fun x c hx => ?_, ?_⟩
  · obtain hold | hc := (w.fills_perform command).content x c hx
    · exact (h.content x c hold).append _
    · exact h.makes hc
  · rw [nextId_perform, h.nextId, List.length_append, length_created?, Nat.add_assoc]

theorem Records.after (h : w.Records first created) (commands : List Command) :
    (w.after commands).Records first (created ++ commands.filterMap Command.created?) := by
  induction commands generalizing w created with
  | nil => rwa [List.filterMap_nil, List.append_nil]
  | cons command rest ih =>
    rw [List.filterMap_eq_flatMap_toList, List.flatMap_cons, ← List.filterMap_eq_flatMap_toList,
      ← List.append_assoc]
    exact ih (h.perform command)

theorem Records.keepsTexts (h : w.Records first created) : w.KeepsTexts first created where
  assembly slot u hu := (h.assembly hu).text?_eq
  image slot s hs := by
    obtain ⟨u, hu, rfl⟩ := h.image hs
    obtain ⟨k, settings, hid, hk, htext⟩ := hu.text?_eq
    refine ⟨k, settings, hid, hk, fun name => ?_⟩
    rw [hu.sound.text?_link, htext, hu.sound.handle?_link]

/-! ### Both -/

/-- Texts that are both kept are the same if the handles are, up to a relabelling. -/
theorem eq_of_kept {kept kept' : Bool} {found found' : Option Handle} {r r' : Relabelling}
    {lines lines' : List String}
    (hfound : found.map (Handle.relabel r) = found'.map (Handle.relabel r'))
    (h : (if kept then found.map Handle.text else none) = some lines)
    (h' : (if kept' then found'.map Handle.text else none) = some lines') : lines = lines' := by
  have htext : found.map Handle.text = found'.map Handle.text := by
    have hmap := congrArg (Option.map Handle.text) hfound
    rwa [Option.map_map, Option.map_map] at hmap
  cases kept with
  | false => cases h
  | true =>
    cases kept' with
    | false => cases h'
    | true => exact Option.some.inj (h.symm.trans (htext.trans h'))

/-- Two workbenches that are alike without diagnostics keep the same texts of the same kernels. -/
theorem KeepsTexts.sameTexts {v plain : Workbench} {n k first' : Nat} {created' : List Settings}
    (hw : w.KeepsTexts first created) (hv : v.KeepsTexts first' created')
    (hwp : (plainFrom n).Mirrors w plain) (hvp : (plainFrom k).Mirrors v plain) :
    w.SameTexts v where
  assembly slot u u' hu hu' name lines lines' hl hl' := by
    obtain ⟨_, _, -, -, htext⟩ := hw.assembly slot u hu
    obtain ⟨_, _, -, -, htext'⟩ := hv.assembly slot u' hu'
    have hplain := (hwp.same (.assembly, slot)).assembly
    rw [(hvp.same (.assembly, slot)).assembly, hu, hu'] at hplain
    have hfound := congrArg (·.handle? name) (Option.some.inj hplain).symm
    simp only [Assembly.handle?_relabel] at hfound
    exact eq_of_kept hfound ((htext name).symm.trans hl) ((htext' name).symm.trans hl')
  image slot s s' hs hs' name lines lines' hl hl' := by
    obtain ⟨_, _, -, -, htext⟩ := hw.image slot s hs
    obtain ⟨_, _, -, -, htext'⟩ := hv.image slot s' hs'
    have hplain := (hwp.same (.image, slot)).image
    rw [(hvp.same (.image, slot)).image, hs, hs'] at hplain
    have hfound := congrArg (·.handle? name) (Option.some.inj hplain).symm
    simp only [Image.handle?_relabel] at hfound
    exact eq_of_kept hfound ((htext name).symm.trans hl) ((htext' name).symm.trans hl')

/-- Commands that differ only in the diagnostics settings of the assemblies that they create get the
same answers and reports, up to the identities of the assemblies and where a text is shown. Whether
there is a text of a kernel depends on the setting for it only, and where both runs show one it is
the same. -/
theorem performAll_diagnostics {commands commands' : List Command}
    (h : commands.map Command.plain = commands'.map Command.plain) (first n : Nat) :
    let w : Workbench := { nextId := first }
    let v : Workbench := { nextId := first + n }
    ((v.performAll commands').map fun x => (x.1.withoutText, x.2)) =
      (w.performAll commands).map (fun x => (x.1.withoutText.rename (· + n), x.2)) ∧
    (w.after commands).KeepsTexts first (commands.filterMap Command.created?) ∧
    (v.after commands').KeepsTexts (first + n) (commands'.filterMap Command.created?) ∧
    (w.after commands).SameTexts (v.after commands') := by
  intro w v
  have hplain : ((v.performAll commands').map fun x => (x.1.withoutText, x.2)) =
      v.performAll (commands'.map Command.plain) := by
    refine Eq.trans (List.map_congr_left fun x _ => ?_) (performAll_plain (first + n) 0 _).symm
    exact congrArg (·, x.2) x.1.withoutText.rename_self.symm
  -- each run alone keeps its texts, and without diagnostics both are the same run
  have hw := ((records_start first).after commands).keepsTexts
  have hv := ((records_start (first + n)).after commands').keepsTexts
  have hvp := mirrors_after (first + n) 0 commands'
  rw [← h] at hvp
  refine ⟨?_, hw, hv, hw.sameTexts hv (mirrors_after first n commands) hvp⟩
  rw [hplain, ← h, performAll_plain first n]

/-- One assembly is created with the default settings. The other one keeps texts, and is to be
neither optimized nor verified. -/
theorem performAll_diagnostics_kept :
    let commands := fun settings : Settings =>
      [Command.create "u" (.ok settings) none, .compile "u" (.text "+") (.text "-") "h",
        .assemblyText "u" "kernel_0"]
    let kept : Settings := { optimization := .none, verify := false, keepText := true }
    let w : Workbench := { nextId := 5 }
    let v : Workbench := { nextId := 7 }
    (commands {}).map Command.plain = (commands kept).map Command.plain ∧
    (((v.performAll (commands kept)).map fun x => (x.1.withoutText, x.2)) =
      (w.performAll (commands {})).map fun x => (x.1.withoutText.rename (· + 2), x.2)) ∧
    (∀ (slot : Slot) u, (w.after (commands {})).assemblies[slot]? = some u →
      ∀ name, u.text? name = none) ∧
    ∀ (slot : Slot) u, (v.after (commands kept)).assemblies[slot]? = some u →
      ∀ name, u.text? name = (u.handle? name).map Handle.text := by
  intro commands kept w v
  have hplain : (commands {}).map Command.plain = (commands kept).map Command.plain := rfl
  obtain ⟨hanswers, hw, hv, -⟩ := performAll_diagnostics hplain 5 2
  have hquiet : (commands {}).filterMap Command.created? = [{}] := by decide
  have hkept : (commands kept).filterMap Command.created? = [kept] := by decide
  rw [hquiet] at hw
  rw [hkept] at hv
  refine ⟨hplain, hanswers, fun slot u hu name => ?_, fun slot u hu name => ?_⟩
  · obtain ⟨k, settings, -, hk, htext⟩ := hw.assembly slot u hu
    obtain rfl := List.mem_singleton.mp (List.mem_of_getElem? hk)
    exact htext name
  · obtain ⟨k, settings, -, hk, htext⟩ := hv.assembly slot u hu
    obtain rfl := List.mem_singleton.mp (List.mem_of_getElem? hk)
    exact htext name

end Workbench

end FusedKernel
