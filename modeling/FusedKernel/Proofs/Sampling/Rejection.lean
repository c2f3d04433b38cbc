import Mathlib.Data.Finset.Card
import Mathlib.Data.Finset.Range
import Mathlib.Logic.Function.Iterate
import FusedKernel.Proofs.Sampling.Ranges

/-! Divisors are what is left of the stream of values when the words that are no safe divisors are
taken out. The search for the next divisor gives up only where the stream has none any more: its
states repeat after as many draws as there are positions. -/
namespace FusedKernel.Sampling

/-! ### Repeated draws -/

section
variable (draw : Keystream → Word × Keystream)

theorem drawMany_succ (n : Nat) (s : Keystream) :
    drawMany draw (n + 1) s =
      ((draw s).1 :: (drawMany draw n (draw s).2).1, (drawMany draw n (draw s).2).2) := rfl

theorem drawMany_add (m n : Nat) (s : Keystream) :
    drawMany draw (m + n) s =
      ((drawMany draw m s).1 ++ (drawMany draw n (drawMany draw m s).2).1,
        (drawMany draw n (drawMany draw m s).2).2) := by
  induction m generalizing s with
  | zero => rw [Nat.zero_add]; rfl
  | succ m ih => rw [Nat.succ_add, drawMany_succ, ih, drawMany_succ, List.cons_append]

end

variable {r : Range} {n draws k : Nat} {w : Word} {ws : List Word} {s s₁ s' : Keystream}

/-- The safe divisors among the first values that are drawn from a range. -/
def safeDraws (r : Range) (k : Nat) (s : Keystream) : List Word :=
  (drawMany (wordIn r) k s).1.filter isSafeDivisor

/-- The stream after a value was drawn. -/
def advance (r : Range) (s : Keystream) : Keystream := (wordIn r s).2

@[simp] theorem safeDraws_zero (r : Range) (s : Keystream) : safeDraws r 0 s = [] := rfl

theorem safeDraws_succ (r : Range) (k : Nat) (s : Keystream) :
    safeDraws r (k + 1) s =
      (if isSafeDivisor (wordIn r s).1 then [(wordIn r s).1] else []) ++
        safeDraws r k (advance r s) := by
  rw [safeDraws, drawMany_succ, List.filter_cons]
  split <;> rfl

theorem divisorWithin_succ (r : Range) (draws : Nat) (s : Keystream) :
    divisorWithin r (draws + 1) s =
      if isSafeDivisor (wordIn r s).1 then some (wordIn r s)
      else divisorWithin r draws (advance r s) := rfl

/-- A number of draws is the least that gives some safe divisors. -/
structure Collects (r : Range) (k : Nat) (s : Keystream) (ws : List Word) (s' : Keystream) :
    Prop where
  state : (drawMany (wordIn r) k s).2 = s'
  divisors : safeDraws r k s = ws
  least : ∀ j < k, (safeDraws r j s).length < ws.length

theorem Collects.nil (r : Range) (s : Keystream) : Collects r 0 s [] s :=
  ⟨rfl, rfl, fun _ hj => absurd hj (Nat.not_lt_zero _)⟩

theorem Collects.accept (hw : isSafeDivisor (wordIn r s).1)
    (h : Collects r k (advance r s) ws s') :
    Collects r (k + 1) s ((wordIn r s).1 :: ws) s' := by
  refine ⟨h.state, ?_, fun j hj => ?_⟩
  · rw [safeDraws_succ, if_pos hw, h.divisors, List.singleton_append]
  · cases j with
    | zero => exact Nat.zero_lt_succ _
    | succ j =>
      rw [safeDraws_succ, if_pos hw]
      exact Nat.succ_lt_succ (h.least j (Nat.lt_of_succ_lt_succ hj))

theorem Collects.reject (hw : ¬isSafeDivisor (wordIn r s).1) (hne : ws ≠ [])
    (h : Collects r k (advance r s) ws s') : Collects r (k + 1) s ws s' := by
  refine ⟨h.state, ?_, fun j hj => ?_⟩
  · rw [safeDraws_succ, if_neg hw, List.nil_append, h.divisors]
  · cases j with
    | zero => exact List.length_pos_of_ne_nil hne
    | succ j =>
      rw [safeDraws_succ, if_neg hw, List.nil_append]
      exact h.least j (Nat.lt_of_succ_lt_succ hj)

/-- The draws of a search, and of what follows it. -/
theorem Collects.of_divisorWithin (hw : divisorWithin r draws s = some (w, s₁))
    (h : Collects r k s₁ ws s') : ∃ k', Collects r k' s (w :: ws) s' := by
  induction draws generalizing s with
  | zero => cases hw
  | succ draws ih =>
    rw [divisorWithin_succ] at hw
    split at hw
    next hsafe =>
      obtain ⟨rfl, rfl⟩ := Prod.ext_iff.mp (Option.some.inj hw)
      exact ⟨k + 1, h.accept hsafe⟩
    next hsafe =>
      obtain ⟨k', hk'⟩ := ih hw
      exact ⟨k' + 1, hk'.reject hsafe (List.cons_ne_nil w ws)⟩

theorem exists_collects (h : divisorList r n s = some (ws, s')) :
    ws.length = n ∧ ∃ k, Collects r k s ws s' := by
  induction n generalizing s ws with
  | zero =>
    cases h
    exact ⟨rfl, 0, .nil r _⟩
  | succ n ih =>
    obtain ⟨⟨w, s₁⟩, hw, h⟩ := Option.bind_eq_some_iff.mp h
    obtain ⟨⟨ws', s₂⟩, hws, h⟩ := Option.bind_eq_some_iff.mp h
    cases h
    obtain ⟨hlength, k, hk⟩ := ih hws
    exact ⟨congrArg (· + 1) hlength, hk.of_divisorWithin hw⟩

/-! ### Streams without further divisors -/

theorem safeDraws_of_divisorWithin (h : divisorWithin r draws s = none) :
    safeDraws r draws s = [] := by
  induction draws generalizing s with
  | zero => rfl
  | succ draws ih =>
    rw [divisorWithin_succ] at h
    split at h
    next => cases h
    next hsafe => rw [safeDraws_succ, if_neg hsafe, List.nil_append, ih h]

/-- Safe divisors are told by the states that the stream passes through. -/
theorem safeDraws_eq_nil_iff :
    safeDraws r k s = [] ↔ ∀ i < k, ¬isSafeDivisor (wordIn r ((advance r)^[i] s)).1 := by
  induction k generalizing s with
  | zero => simp
  | succ k ih =>
    rw [safeDraws_succ, List.append_eq_nil_iff, ih, Nat.forall_lt_succ_left]
    simp

theorem Keystream.eq_of_key_of_position {s t : Keystream} (hk : s.key = t.key)
    (hp : s.position = t.position) : s = t := by
  cases s
  cases t
  obtain rfl : _ = _ := hk
  obtain rfl : _ = _ := hp
  rfl

theorem key_advance (r : Range) (s : Keystream) : (advance r s).key = s.key := by
  unfold advance wordIn
  split
  · rfl
  · dsimp only
    split <;> rfl

theorem position_advance_lt (r : Range) (s : Keystream) :
    (advance r s).position < Keystream.period := by
  unfold advance wordIn
  split
  · exact s.position_next_lt
  · dsimp only
    split
    · exact Keystream.position_next_lt _
    · exact s.position_next_lt

/-- Where the states of a sequence repeat, the first of them are all. -/
theorem exists_iterate_eq {α : Type} {f : α → α} {x : α} {i j : Nat} (hij : i < j)
    (hrepeat : f^[i] x = f^[j] x) (m : Nat) : ∃ k < j, f^[k] x = f^[m] x := by
  induction m using Nat.strongRecOn with
  | ind m ih =>
    obtain hm | hm := Nat.lt_or_ge m j
    · exact ⟨m, hm, rfl⟩
    · obtain ⟨d, rfl⟩ := Nat.exists_eq_add_of_le' hm
      obtain ⟨k, hk, heq⟩ := ih (d + i) (by omega)
      refine ⟨k, hk, heq.trans ?_⟩
      rw [Function.iterate_add_apply, hrepeat, ← Function.iterate_add_apply]

/-- After the first draw, there are as many states as positions, so two of those up to that number
of draws agree. -/
theorem exists_repeat (r : Range) (s : Keystream) :
    ∃ i j, i < j ∧ j ≤ Keystream.period + 1 ∧ (advance r)^[i] s = (advance r)^[j] s := by
  have hposition : ∀ i, ((advance r)^[i + 1] s).position < Keystream.period := fun i => by
    rw [Function.iterate_succ_apply']
    exact position_advance_lt r _
  have hkey : ∀ i, ((advance r)^[i] s).key = s.key := fun i => by
    induction i with
    | zero => rfl
    | succ i ih => rw [Function.iterate_succ_apply', key_advance, ih]
  obtain ⟨i, hi, j, hj, hne, heq⟩ := Finset.exists_ne_map_eq_of_card_lt_of_maps_to
    (s := Finset.range (Keystream.period + 1)) (t := Finset.range Keystream.period)
    (f := fun i => ((advance r)^[i + 1] s).position) (by simp)
    (fun i _ => Finset.mem_coe.mpr (Finset.mem_range.mpr (hposition i)))
  have hstate : (advance r)^[i + 1] s = (advance r)^[j + 1] s :=
    Keystream.eq_of_key_of_position ((hkey (i + 1)).trans (hkey (j + 1)).symm) heq
  rw [Finset.mem_range] at hi hj
  obtain hlt | hlt := Nat.lt_or_gt_of_ne hne
  · exact ⟨i + 1, j + 1, by omega, by omega, hstate⟩
  · exact ⟨j + 1, i + 1, by omega, by omega, hstate.symm⟩

/-- Where the search finds no safe divisor, there is none in all of the stream. -/
theorem safeDraws_of_nextDivisor (h : nextDivisor r s = none) (k : Nat) :
    safeDraws r k s = [] := by
  obtain ⟨i, j, hij, hj, hrepeat⟩ := exists_repeat r s
  have hnone := safeDraws_eq_nil_iff.mp (safeDraws_of_divisorWithin h)
  refine safeDraws_eq_nil_iff.mpr fun m _ => ?_
  obtain ⟨m', hm', heq⟩ := exists_iterate_eq hij hrepeat m
  rw [← heq]
  exact hnone m' (Nat.lt_of_lt_of_le hm' hj)

theorem safeDraws_add (r : Range) (m n : Nat) (s : Keystream) :
    safeDraws r (m + n) s =
      safeDraws r m s ++ safeDraws r n (drawMany (wordIn r) m s).2 := by
  rw [safeDraws, drawMany_add, List.filter_append]
  rfl

/-- Where the search for some divisors does not come to an end, the stream has fewer. -/
theorem length_safeDraws_lt (h : divisorList r n s = none) (k : Nat) :
    (safeDraws r k s).length < n := by
  induction n generalizing s k with
  | zero => cases h
  | succ n ih =>
    cases hw : nextDivisor r s with
    | none =>
      rw [safeDraws_of_nextDivisor hw]
      exact Nat.zero_lt_succ n
    | some next =>
      obtain ⟨w, s₁⟩ := next
      have hrest : divisorList r n s₁ = none :=
        Option.eq_none_iff_forall_ne_some.mpr fun result hr => by simp [divisorList, hw, hr] at h
      obtain ⟨first, hfirst⟩ := (Collects.nil r s₁).of_divisorWithin hw
      obtain hk | hk := Nat.lt_or_ge k first
      · exact Nat.lt_of_lt_of_le (hfirst.least k hk) (Nat.le_add_left 1 n)
      · obtain ⟨m, rfl⟩ := Nat.exists_eq_add_of_le hk
        rw [safeDraws_add, hfirst.divisors, hfirst.state, List.singleton_append, List.length_cons]
        exact Nat.succ_lt_succ (ih hrest m)

/-! ### Ranges without safe divisors -/

theorem isSafeDivisor_iff : isSafeDivisor w ↔ w ≠ 0 ∧ w ≠ -1 := by
  rw [isSafeDivisor, Bool.and_eq_true, bne_iff_ne, bne_iff_ne]

theorem isSafeDivisor_iff_toInt : isSafeDivisor w ↔ w.toInt ≠ 0 ∧ w.toInt ≠ -1 := by
  rw [isSafeDivisor_iff, ne_eq, ne_eq, ← BitVec.toInt_inj, ← BitVec.toInt_inj]
  rfl

namespace Range

theorem hasSafeDivisor_iff_toInt :
    r.hasSafeDivisor ↔ r.lo.toInt ≤ r.hi.toInt ∧ (r.lo.toInt < -1 ∨ 0 < r.hi.toInt) := by
  rw [hasSafeDivisor, Bool.and_eq_true, Bool.or_eq_true, Bool.not_eq_true', ← Bool.not_eq_true,
    isEmpty_iff, Int.not_lt, BitVec.slt_iff_toInt_lt, BitVec.slt_iff_toInt_lt]
  rfl

/-- If a range has safe divisors, one of its ends is among them. -/
theorem hasSafeDivisor_iff : r.hasSafeDivisor ↔ ∃ w, r.contains w ∧ isSafeDivisor w := by
  simp only [hasSafeDivisor_iff_toInt, contains_iff, isSafeDivisor_iff_toInt]
  constructor
  · rintro ⟨hle, hlo | hhi⟩
    · exact ⟨r.lo, ⟨Int.le_refl _, hle⟩, by omega, by omega⟩
    · exact ⟨r.hi, ⟨hle, Int.le_refl _⟩, by omega, by omega⟩
  · rintro ⟨w, hmem, hsafe⟩
    omega

theorem isEmpty_of_hasSafeDivisor (h : r.hasSafeDivisor) : r.isEmpty = false := by
  rw [← Bool.not_eq_true, isEmpty_iff]
  exact Int.not_lt.mpr (hasSafeDivisor_iff_toInt.mp h).1

end Range

/-- Values of a range that is not empty are drawn, in any number. -/
theorem values_of_not_isEmpty (h : r.isEmpty = false) (n : Nat) (s : Keystream) :
    values n r s = .ok (drawMany (wordIn r) n s) := by
  rw [values, if_neg (by simp [h])]

theorem contains_of_mem_drawMany (h : r.isEmpty = false) :
    ∀ w ∈ (drawMany (wordIn r) k s).1, r.contains w := by
  induction k generalizing s with
  | zero => exact List.forall_mem_nil _
  | succ k ih => exact List.forall_mem_cons.mpr ⟨Range.contains_wordIn h s, ih⟩

theorem divisorList_eq_none_iff :
    divisorList r n s = none ↔ ∀ k, (safeDraws r k s).length < n := by
  refine ⟨length_safeDraws_lt, fun h => ?_⟩
  cases hlist : divisorList r n s with
  | none => rfl
  | some result =>
    obtain ⟨hlength, k, hk⟩ := exists_collects hlist
    have hlt := h k
    rw [hk.divisors, hlength] at hlt
    exact absurd hlt (Nat.lt_irrefl n)

/-! ### Answers -/

theorem divisors_eq_noSafeDivisor_iff :
    divisors n r s = .error (.noSafeDivisor r) ↔ ¬r.hasSafeDivisor := by
  unfold divisors
  split
  next h => split <;> simp [h]
  next h => simp [h]

theorem divisors_eq_ok_iff :
    divisors n r s = .ok (ws, s') ↔ r.hasSafeDivisor ∧ divisorList r n s = some (ws, s') := by
  unfold divisors
  split
  next => split <;> simp [*]
  next h => simp [h]

theorem divisors_eq_endless_iff :
    divisors n r s = .error .endless ↔ r.hasSafeDivisor ∧ divisorList r n s = none := by
  unfold divisors
  split
  next => split <;> simp [*]
  next h => simp [h]

theorem of_divisors_eq_error {e : SampleError} (h : divisors n r s = .error e) :
    e = .noSafeDivisor r ∨ e = .endless := by
  unfold divisors at h
  split at h
  · split at h <;> cases h
    exact .inr rfl
  · cases h
    exact .inl rfl

/-- Safe divisors are refused just where a range has none, even if none are asked for. Where they
are given, they are as many as asked for, members of the range and safe; and the stream of values
that starts at the same place has exactly them when all else is taken out of it, up to the place
where the drawing of them ends and not before. Otherwise there is no end of the search: however
many values are drawn, they hold too few safe ones. -/
theorem divisors_filter (n : Nat) (r : Range) (s : Keystream) :
    (divisors n r s = .error (.noSafeDivisor r) ↔ ∀ w, r.contains w → w = 0 ∨ w = -1) ∧
    ((∀ w, r.contains w → w = 0 ∨ w = -1) ↔
      r.hi.toInt < r.lo.toInt ∨ -1 ≤ r.lo.toInt ∧ r.hi.toInt ≤ 0) ∧
    (∀ ws s', divisors n r s = .ok (ws, s') →
      ws.length = n ∧ (∀ w ∈ ws, r.contains w ∧ w ≠ 0 ∧ w ≠ -1) ∧
      ∃ k drawn, values k r s = .ok (drawn, s') ∧ drawn.filter isSafeDivisor = ws ∧
        ∀ j < k, ∃ fewer s₁, values j r s = .ok (fewer, s₁) ∧
          (fewer.filter isSafeDivisor).length < n) ∧
    (∀ e, divisors n r s = .error e → e = .noSafeDivisor r ∨ e = .endless) ∧
    (divisors n r s = .error .endless ↔
      (∃ w, r.contains w ∧ w ≠ 0 ∧ w ≠ -1) ∧
        ∀ k, ∃ drawn s', values k r s = .ok (drawn, s') ∧
          (drawn.filter isSafeDivisor).length < n) := by
  have hmember : r.hasSafeDivisor ↔ ∃ w, r.contains w ∧ w ≠ 0 ∧ w ≠ -1 := by
    simp only [Range.hasSafeDivisor_iff, isSafeDivisor_iff]
  have hnone : ¬r.hasSafeDivisor ↔ ∀ w, r.contains w → w = 0 ∨ w = -1 := by
    rw [hmember, not_exists]
    refine forall_congr' fun w => ?_
    rw [not_and, ← not_or, not_not]
  refine ⟨divisors_eq_noSafeDivisor_iff.trans hnone, ?_, fun ws s' h => ?_,
    fun e => of_divisors_eq_error, ?_⟩
  · rw [← hnone, Range.hasSafeDivisor_iff_toInt]
    omega
  · obtain ⟨hsafe, hlist⟩ := divisors_eq_ok_iff.mp h
    have hne := Range.isEmpty_of_hasSafeDivisor hsafe
    obtain ⟨hlength, k, hk⟩ := exists_collects hlist
    refine ⟨hlength, fun w hw => ?_, k, _, ?_, hk.divisors, fun j hj => ?_⟩
    · rw [← hk.divisors] at hw
      obtain ⟨hmem, hw⟩ := List.mem_filter.mp hw
      exact ⟨contains_of_mem_drawMany hne w hmem, isSafeDivisor_iff.mp hw⟩
    · rw [values_of_not_isEmpty hne, ← hk.state]
    · exact ⟨_, _, values_of_not_isEmpty hne j s, hlength ▸ hk.least j hj⟩
  · rw [divisors_eq_endless_iff, divisorList_eq_none_iff, ← hmember]
    refine and_congr_right fun hsafe => forall_congr' fun k => ?_
    rw [values_of_not_isEmpty (Range.isEmpty_of_hasSafeDivisor hsafe)]
    constructor
    · exact fun h => ⟨_, _, rfl, h⟩
    · rintro ⟨drawn, s', heq, h⟩
      have hdrawn : (drawMany (wordIn r) k s).1 = drawn := congrArg Prod.fst (Except.ok.inj heq)
      rwa [safeDraws, hdrawn]

end FusedKernel.Sampling
