import Mathlib.Logic.Equiv.Basic
import FusedKernel.Proofs.Workbench.Correspondence

/-! Lives of assemblies. On a workbench the commands to many assemblies are interleaved, to each
from its creation to the last use of the image that it is linked into. Each life goes as if there
were no other: done alone on an empty workbench, its commands are answered the same, up to the
identity of the assembly. The invariant relates the workbench on which all is done to the one on
which only the commands of one life are: what the former holds of this assembly, the latter holds
too. -/
namespace FusedKernel.Workbench

/-- Whether a command belongs to the life of the assembly of an identity: it is addressed to it, and
uses no handle of another one. -/
def concerns (w : Workbench) (k : Nat) (command : Command) : Bool :=
  w.addressee? command == some k &&
    command.handles.all fun slot => (w.handles[slot]?).all fun h => h.owner == k

/-- A command with its answer and what was reported. -/
structure Exchange where
  command : Command
  reply : Reply
  events : List Console.Event

/-- The life of the assembly of an identity, as far as commands in order contain it. -/
def lifeOf (k : Nat) (w : Workbench) : List Command → List Exchange
  | [] => []
  | command :: rest =>
    let step := w.perform command
    let later := lifeOf k step.bench rest
    if w.concerns k command then ⟨command, step.reply, step.events⟩ :: later else later

variable {k : Nat} {w v : Workbench} {command : Command}

/-! ### Identities in use -/

/-- Identities that occur are below the next one. -/
def Bounded (w : Workbench) : Prop := ∀ x c, w.content x = some c → c.owner < w.nextId

theorem content_start (x : Place) : ({} : Workbench).content x = none := by
  obtain ⟨kind, slot⟩ := x
  cases kind <;> simp [content]

theorem bounded_start : Bounded {} := fun x c hx => by
  rw [content_start] at hx
  cases hx

theorem addressee?_of_creates (hc : command.creates) : w.addressee? command = some w.nextId :=
  if_pos hc

theorem Bounded.addressee_lt (hb : Bounded w) (hc : command.creates = false)
    (ha : w.addressee? command = some k) : k < w.nextId := by
  rw [addressee?, hc, if_neg Bool.false_ne_true] at ha
  obtain ⟨c, hx, rfl⟩ := Option.map_eq_some_iff.mp ha
  obtain ⟨x, -, hx⟩ := Option.bind_eq_some_iff.mp hx
  exact hb x c hx

theorem Bounded.perform (hb : Bounded w) (command : Command) :
    Bounded (w.perform command).bench := by
  intro x c hx
  rw [nextId_perform]
  obtain hold | ha := (w.contributes_perform command).content x c hx
  · exact Nat.lt_add_right _ (hb x c hold)
  · cases hc : command.creates with
    | false => exact hb.addressee_lt hc ha
    | true =>
      rw [addressee?_of_creates hc] at ha
      exact Nat.lt_succ_of_le (Nat.le_of_eq (Option.some.inj ha).symm)

theorem addressee_of_concerns (h : w.concerns k command) : w.addressee? command = some k := by
  simpa using (Bool.and_eq_true_iff.mp h).1

/-- The life of an assembly begins where its identity is the next one. -/
theorem Bounded.creates_of_concerns (hb : Bounded w) (hk : w.nextId ≤ k)
    (h : w.concerns k command) : command.creates := by
  cases hc : command.creates with
  | true => rfl
  | false => exact absurd (hb.addressee_lt hc (addressee_of_concerns h)) (Nat.not_lt.mpr hk)

theorem nextId_of_concerns (hc : command.creates) (h : w.concerns k command) : w.nextId = k :=
  Option.some.inj ((addressee?_of_creates hc).symm.trans (addressee_of_concerns h))

theorem concerns_nextId (hc : command.creates) : w.concerns w.nextId command := by
  cases command with
  | create slot settings names =>
    rw [concerns, addressee?_of_creates hc]
    simp [Command.handles]
  | _ => cases hc

/-- Before an assembly is created, other commands leave its identity free. -/
theorem nextId_perform_le (hk : w.nextId ≤ k) (h : w.concerns k command = false) :
    (w.perform command).bench.nextId ≤ k := by
  rw [nextId_perform]
  cases hc : command.creates with
  | false => exact hk
  | true =>
    refine Nat.lt_of_le_of_ne hk fun he => ?_
    rw [← he, concerns_nextId hc] at h
    cases h

/-! ### A life alone -/

/-- One workbench holds what another holds of an assembly, under the first identity of all. Slots of
handles that are empty on the other are empty here. -/
structure Shadows (k : Nat) (w v : Workbench) : Prop where
  bounded : Bounded w
  own : ∀ x c, w.content x = some c → c.owner = k → v.content x = some (c.rename (Equiv.swap k 0))
  handle : ∀ slot, w.content (.handle, slot) = none → v.content (.handle, slot) = none
  nextId : w.nextId ≤ k → v.nextId = 0

theorem shadows_start (k : Nat) : Shadows k {} {} where
  bounded := bounded_start
  own x c hx := by
    rw [content_start] at hx
    cases hx
  handle slot _ := content_start _
  nextId _ := rfl

theorem Shadows.perform_other (h : Shadows k w v) (hc : w.concerns k command = false) :
    Shadows k (w.perform command).bench v := by
  have hcontributes := w.contributes_perform command
  refine ⟨h.bounded.perform command, fun x c hx ho => ?_, fun slot hs => ?_, fun hk => ?_⟩
  · obtain hold | ha := hcontributes.content x c hx
    · exact h.own x c hold ho
    · -- the command is addressed to the assembly, so it uses a handle of another and only looks
      by_cases hhandles : command.handles = []
      · rw [concerns, hhandles, ha, ho] at hc
        simp at hc
      · obtain ⟨slot, hslot⟩ := List.exists_mem_of_ne_nil _ hhandles
        rw [bench_perform_of_reads (Command.reads_of_mem_handles hslot)] at hx
        exact h.own x c hx ho
  · exact h.handle slot (hcontributes.handle slot hs)
  · rw [nextId_perform] at hk
    exact h.nextId (Nat.le_of_add_right_le hk)

/-- What a command of the life uses is held by both workbenches. -/
theorem Shadows.sameAt (h : Shadows k w v) (hc : command.creates = false)
    (hconcerns : w.concerns k command) : ∀ x ∈ command.uses, SameAt (Equiv.swap k 0) w v x := by
  obtain ⟨haddressee, hhandles⟩ := Bool.and_eq_true_iff.mp hconcerns
  intro x hx
  obtain hx | hx := List.mem_append.mp hx
  · have hplace : command.place? = some x := Option.mem_toList.mp hx
    have ha := addressee_of_concerns hconcerns
    rw [addressee?, hc, if_neg Bool.false_ne_true, hplace] at ha
    obtain ⟨c, hcontent, ho⟩ := Option.map_eq_some_iff.mp ha
    have hcontent : w.content x = some c := hcontent
    rw [SameAt, hcontent]
    exact h.own x c hcontent ho
  · obtain ⟨slot, hslot, rfl⟩ := List.mem_map.mp hx
    have hslot := List.all_eq_true.mp hhandles slot hslot
    rw [SameAt]
    cases hh : w.handles[slot]? with
    | none =>
      have hcontent : w.content (.handle, slot) = none := by simp [content, hh]
      rw [hcontent]
      exact h.handle slot hcontent
    | some h' =>
      have hcontent : w.content (.handle, slot) = some (.handle h') := by simp [content, hh]
      have ho : h'.owner = k := by simpa [hh] using hslot
      rw [hcontent]
      exact h.own _ (.handle h') hcontent ho

theorem Shadows.corresponds (h : Shadows k w v) (hconcerns : w.concerns k command) :
    Corresponds (Equiv.swap k 0) w v (w.perform command) (v.perform command) := by
  refine corresponds_perform (Equiv.swap k 0).injective (fun x hx => ?_) fun hc => ?_
  · cases hc : command.creates with
    | false => exact h.sameAt hc hconcerns x hx
    | true =>
      -- a creation uses nothing
      cases command with
      | create slot settings names => cases hx
      | _ => cases hc
  · have hk := nextId_of_concerns hc hconcerns
    rw [h.nextId (Nat.le_of_eq hk), hk, Equiv.swap_apply_left]

theorem Shadows.perform (h : Shadows k w v) (hconcerns : w.concerns k command) :
    Shadows k (w.perform command).bench (v.perform command).bench := by
  have hcorresponds := h.corresponds hconcerns
  refine ⟨h.bounded.perform command, fun x c hx ho => ?_, fun slot hs => ?_, fun hk => ?_⟩
  · obtain hsame | ⟨hw, hv⟩ := hcorresponds.changed x
    · rw [hsame, hx]
      rfl
    · rw [hv]
      exact h.own x c (hw ▸ hx) ho
  · obtain hsame | ⟨hw, hv⟩ := hcorresponds.changed (.handle, slot)
    · rw [hsame, hs]
      rfl
    · rw [hv]
      exact h.handle slot (hw ▸ hs)
  · -- the assembly has been created by now
    rw [nextId_perform] at hk
    have hcreates := h.bounded.creates_of_concerns (Nat.le_of_add_right_le hk) hconcerns
    rw [hcreates, nextId_of_concerns hcreates hconcerns] at hk
    exact absurd hk (Nat.not_succ_le_self k)

/-! ### Whole lives -/

theorem Shadows.performAll_lifeOf (h : Shadows k w v) (commands : List Command) :
    v.performAll ((lifeOf k w commands).map Exchange.command) =
      (lifeOf k w commands).map fun x => (x.reply.rename (Equiv.swap k 0), x.events) := by
  -- commands outside of the life move `w` only, the others move both workbenches
  induction commands generalizing w v with
  | nil => rfl
  | cons command rest ih =>
    unfold lifeOf
    split
    next hconcerns =>
      have hcorresponds := h.corresponds hconcerns
      simp only [List.map_cons, performAll, hcorresponds.reply, hcorresponds.events,
        ih (h.perform hconcerns)]
    next hconcerns => exact ih (h.perform_other (Bool.eq_false_iff.mpr hconcerns))

theorem not_creates_of_mem_lifeOf {commands : List Command} (hk : k < w.nextId) {x : Exchange}
    (hx : x ∈ lifeOf k w commands) : x.command.creates = false := by
  induction commands generalizing w with
  | nil => cases hx
  | cons command rest ih =>
    have hrest : x ∈ lifeOf k (w.perform command).bench rest → x.command.creates = false :=
      ih (by rw [nextId_perform]; exact Nat.lt_add_right _ hk)
    unfold lifeOf at hx
    split at hx
    next hconcerns =>
      obtain rfl | hx := List.mem_cons.mp hx
      · refine Bool.eq_false_iff.mpr fun hc => ?_
        exact absurd hk (Nat.not_lt.mpr (Nat.le_of_eq (nextId_of_concerns hc hconcerns)))
      · exact hrest hx
    next => exact hrest hx

/-- A life begins with the creation of its assembly, and no other creation is part of it. -/
theorem Bounded.creates_lifeOf (hb : Bounded w) (hk : w.nextId ≤ k) {commands : List Command}
    {first : Exchange} {later : List Exchange} (h : lifeOf k w commands = first :: later) :
    first.command.creates ∧ ∀ x ∈ later, x.command.creates = false := by
  induction commands generalizing w with
  | nil => cases h
  | cons command rest ih =>
    unfold lifeOf at h
    split at h
    next hconcerns =>
      obtain ⟨rfl, rfl⟩ := List.cons.inj h
      have hcreates := hb.creates_of_concerns hk hconcerns
      refine ⟨hcreates, fun x hx => not_creates_of_mem_lifeOf ?_ hx⟩
      rw [nextId_perform, hcreates, nextId_of_concerns hcreates hconcerns]
      exact Nat.lt_succ_self k
    next hconcerns =>
      exact ih (hb.perform command) (nextId_perform_le hk (Bool.eq_false_iff.mpr hconcerns)) h

/-- The assemblies that are created have the identities from the next one on, and each has a
life. -/
theorem Bounded.lifeOf_eq_nil_iff (hb : Bounded w) (hk : w.nextId ≤ k) (commands : List Command) :
    lifeOf k w commands = [] ↔ w.nextId + commands.countP Command.creates ≤ k := by
  induction commands generalizing w with
  | nil => simpa [lifeOf] using hk
  | cons command rest ih =>
    unfold lifeOf
    split
    -- the first command of a life is the creation that reaches the identity
    next hconcerns =>
      have hcreates := hb.creates_of_concerns hk hconcerns
      rw [List.countP_cons_of_pos hcreates, nextId_of_concerns hcreates hconcerns]
      simp
    next hconcerns =>
      have hcount : w.nextId + (command :: rest).countP Command.creates =
          (w.perform command).bench.nextId + rest.countP Command.creates := by
        rw [nextId_perform, List.countP_cons]
        cases command.creates <;> simp [Nat.add_comm, Nat.add_left_comm]
      rw [hcount]
      exact ih (hb.perform command) (nextId_perform_le hk (Bool.eq_false_iff.mpr hconcerns))

/-- Assemblies do not notice each other. However commands to many of them are interleaved, each
assembly that is created has a life of its own, which begins with its creation; the commands of a
life get the same answers and reports when they are done alone on an empty workbench. Only the
identity is another one there, the first of all. -/
theorem performAll_life (commands : List Command) (k : Nat) :
    let life := lifeOf k {} commands
    (life = [] ↔ commands.countP Command.creates ≤ k) ∧
    (∀ first later, life = first :: later →
      first.command.creates ∧ ∀ x ∈ later, x.command.creates = false) ∧
    ({} : Workbench).performAll (life.map Exchange.command) =
      life.map fun x => (x.reply.rename (Equiv.swap k 0), x.events) := by
  intro life
  refine ⟨?_, fun first later h => bounded_start.creates_lifeOf (Nat.zero_le k) h,
    (shadows_start k).performAll_lifeOf commands⟩
  simpa using bounded_start.lifeOf_eq_nil_iff (Nat.zero_le k) commands

end FusedKernel.Workbench
