import Mathlib.Data.List.Nodup
import FusedKernel.NameSupply
import FusedKernel.Proofs.Text.Numerals

/-! A name tells its stem and its number: the digits at its end are those of the number, and before
them is an underscore, which is no digit. So a supply that goes back to a saved one repeats exactly
the names of the numbers that it repeats, and supplies over different stems have no name in
common. -/
namespace FusedKernel.NameSupply

open Text

theorem reverse_nameAt (stem : String) (n : Nat) :
    (nameAt stem n).toList.reverse =
      (Nat.toDigits 10 n).reverse ++ '_' :: stem.toList.reverse := by
  simp [nameAt]

theorem nameAt_eq_iff {p q : String} {m n : Nat} : nameAt p m = nameAt q n ↔ p = q ∧ m = n := by
  refine ⟨fun h => ?_, fun ⟨hstem, hnumber⟩ => hstem ▸ hnumber ▸ rfl⟩
  have htext := congrArg (List.reverse ∘ String.toList) h
  simp only [Function.comp_apply, reverse_nameAt] at htext
  have hdigit : ∀ n, ∀ c ∈ (Nat.toDigits 10 n).reverse, c.isDigit :=
    fun _ _ hc => isDigit_of_mem_digits (List.mem_reverse.mp hc)
  obtain ⟨hdigits, hrest⟩ :=
    append_inj_of_takeWhile (hdigit m) (hdigit n) rfl rfl htext
  have hstem := (List.cons_inj_right '_').mp hrest
  exact ⟨String.toList_inj.mp (List.reverse_injective hstem),
    digits_injective (List.reverse_injective hdigits)⟩

namespace Desk

/-- What can be done at a desk. -/
inductive Step
  | draw
  | save
  | restore
  deriving DecidableEq, Repr

/-- A name that was drawn, with the number of names drawn before it. -/
structure Issue where
  number : Nat
  name : String
  deriving DecidableEq, Repr

/-- The desk after a step. -/
def step (d : Desk) : Step → Desk
  | .draw => d.draw.2
  | .save => d.save
  | .restore => d.restore

/-- The desk after steps in order. -/
def after (d : Desk) (steps : List Step) : Desk := steps.foldl step d

/-- What a step issues. -/
def issue? (d : Desk) : Step → Option Issue
  | .draw => some ⟨d.current.issued, d.draw.1⟩
  | .save | .restore => none

/-- What steps issue, in order. -/
def issues : Desk → List Step → List Issue
  | _, [] => []
  | d, s :: rest => (d.issue? s).toList ++ (d.step s).issues rest

variable {d : Desk} {stem : String} {steps : List Step} {s : Step}

@[simp] theorem issued_step_draw (d : Desk) :
    (d.step .draw).current.issued = d.current.issued + 1 := rfl

@[simp] theorem current_step_save (d : Desk) : (d.step .save).current = d.current := rfl

@[simp] theorem after_nil (d : Desk) : d.after [] = d := rfl

@[simp] theorem after_cons (d : Desk) (s : Step) (rest : List Step) :
    d.after (s :: rest) = (d.step s).after rest := rfl

/-! ### Stems -/

/-- Both supplies of a desk are over a stem. -/
structure OfStem (stem : String) (d : Desk) : Prop where
  current : d.current.stem = stem
  saved : d.saved.stem = stem

theorem OfStem.step (h : d.OfStem stem) (s : Step) : (d.step s).OfStem stem := by
  cases s with
  | draw => exact ⟨h.current, h.saved⟩
  | save => exact ⟨h.current, h.current⟩
  | restore => exact ⟨h.saved, h.saved⟩

theorem OfStem.after (h : d.OfStem stem) (steps : List Step) : (d.after steps).OfStem stem := by
  induction steps generalizing d with
  | nil => exact h
  | cons s rest ih => exact ih (h.step s)

theorem OfStem.name_of_mem_issues (h : d.OfStem stem) {x : Issue} (hx : x ∈ d.issues steps) :
    x.name = nameAt stem x.number := by
  induction steps generalizing d with
  | nil => cases hx
  | cons s rest ih =>
    obtain hx | hx := List.mem_append.mp hx
    · cases s with
      | draw =>
        obtain rfl := List.mem_singleton.mp hx
        exact congrArg (nameAt · d.current.issued) h.current
      | save | restore => cases hx
    · exact ih (h.step s) hx

theorem ofStem_new (s : NameSupply) : (new s).OfStem s.stem := ⟨rfl, rfl⟩

/-! ### Numbers -/

/-- Without going back, the numbers are consecutive. -/
theorem numbers_issues (h : .restore ∉ steps) :
    (d.issues steps).map Issue.number = List.range' d.current.issued (steps.count .draw) := by
  induction steps generalizing d with
  | nil => rfl
  | cons s rest ih =>
    obtain ⟨hs, hrest⟩ := not_or.mp (mt List.mem_cons.mpr h)
    have ih := ih (d := d.step s) hrest
    cases s with
    | draw => simpa [issues, issue?, List.range'_succ] using ih
    | save => simpa [issues, issue?] using ih
    | restore => exact absurd rfl hs

theorem issued_after (h : .restore ∉ steps) :
    (d.after steps).current.issued = d.current.issued + steps.count .draw := by
  induction steps generalizing d with
  | nil => rfl
  | cons s rest ih =>
    obtain ⟨hs, hrest⟩ := not_or.mp (mt List.mem_cons.mpr h)
    have ih := ih (d := d.step s) hrest
    cases s with
    | draw => simpa [Nat.add_assoc, Nat.add_comm 1] using ih
    | save => simpa using ih
    | restore => exact absurd rfl hs

theorem saved_after (h : .save ∉ steps) : (d.after steps).saved = d.saved := by
  induction steps generalizing d with
  | nil => rfl
  | cons s rest ih =>
    obtain ⟨hs, hrest⟩ := not_or.mp (mt List.mem_cons.mpr h)
    rw [after_cons, ih hrest]
    cases s with
    | draw | restore => rfl
    | save => exact absurd rfl hs

/-- Without going back, no name is issued twice. -/
theorem OfStem.nodup_names (hd : d.OfStem stem) (h : .restore ∉ steps) :
    ((d.issues steps).map Issue.name).Nodup := by
  have hnames : (d.issues steps).map Issue.name =
      ((d.issues steps).map Issue.number).map (nameAt stem) := by
    rw [List.map_map]
    exact List.map_congr_left fun x hx => hd.name_of_mem_issues hx
  rw [hnames, numbers_issues h]
  exact List.Nodup.map (fun _ _ hname => (nameAt_eq_iff.mp hname).2) List.nodup_range'

end Desk

open Desk (Step)

/-- Names decode uniquely: a stem and a number make one name, and no other stem and number make
it. So, whatever is drawn, saved and gone back to at two desks, two names agree exactly if the
stems do and the numbers at which they were drawn; in particular, at one desk, exactly if the
numbers do, and over different stems never. On the way from any point of a run to the next
restoring, all names are different, and the count of issued names grows by one with each draw; at a
restoring, it becomes that of the supply that was saved last, or else of the one at the start. The
stem is always that of the start. -/
theorem names_decode :
    (∀ p q m n, nameAt p m = nameAt q n ↔ p = q ∧ m = n) ∧
    (∀ (s t : NameSupply) (steps steps' : List Step),
      ∀ x ∈ (Desk.new s).issues steps, ∀ y ∈ (Desk.new t).issues steps',
        x.name = y.name ↔ s.stem = t.stem ∧ x.number = y.number) ∧
    ∀ (s : NameSupply) (before since : List Step),
      let d := (Desk.new s).after before
      (.restore ∉ since →
        ((d.issues since).map Desk.Issue.name).Nodup ∧
        (d.after since).current.issued = d.current.issued + since.count .draw ∧
        (d.restore.after since).current.issued = d.saved.issued + since.count .draw) ∧
      (.save ∉ since → (d.save.after since).saved = d.current) ∧
      (.save ∉ before → d.saved = s) ∧
      d.current.stem = s.stem := by
  refine ⟨fun p q m n => nameAt_eq_iff, fun s t steps steps' x hx y hy => ?_,
    fun s before since => ?_⟩
  · rw [(Desk.ofStem_new s).name_of_mem_issues hx, (Desk.ofStem_new t).name_of_mem_issues hy,
      nameAt_eq_iff]
  · have hd := (Desk.ofStem_new s).after before
    exact ⟨fun h => ⟨hd.nodup_names h, Desk.issued_after h, Desk.issued_after h⟩,
      fun h => Desk.saved_after h, fun h => Desk.saved_after h, hd.current⟩

end FusedKernel.NameSupply
