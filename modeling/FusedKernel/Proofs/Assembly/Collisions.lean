import Mathlib.Data.List.Perm.Subperm
import FusedKernel.Proofs.Assembly.History
import FusedKernel.Proofs.Names.Unique

/-! A drawn name can be defined already, but only by a request that gave it: a supply does not draw
a name twice. So every kernel under a given name lets at most one request for a fresh name fail, and
whoever asks for fresh names more often than names were given gets one of them. -/
namespace FusedKernel

theorem NameSupply.nameAt_injective (stem : String) : Function.Injective (nameAt stem) :=
  fun _ _ h => (nameAt_eq_iff.mp h).2

namespace Assembly

/-- At a position, a request for a fresh name failed as this name was defined. -/
def CollidesAt (answered : List (Request × Except Failure Handle)) (i : Nat) (name : String) :
    Prop :=
  ∃ r : Request, r.givenName? = none ∧ answered[i]? = some (r, .error (.duplicateSymbol name))

/-- The name over which a request for a fresh one failed. -/
def collision? (answered : Request × Except Failure Handle) : Option String :=
  match answered.1.givenName?, answered.2 with
  | none, .error (.duplicateSymbol name) => some name
  | _, _ => none

/-- The name that a request gave to the kernel that it defined. -/
def definition? (answered : Request × Except Failure Handle) : Option String :=
  match answered.1.givenName?, answered.2 with
  | some name, .ok _ => some name
  | _, _ => none

/-! ### One answer -/

namespace Request

variable {id : Nat} {issued : List Handle} {names : NameSupply} {r : Request} {h : Handle}
  {name : String}

theorem not_mem_of_answer_eq_ok (ha : r.answer id issued names = .ok h) :
    h.name ∉ issued.map Handle.name := by
  unfold answer at ha
  split at ha
  · cases ha
  · split at ha
    · cases ha
    next hn =>
      cases ha
      exact hn

theorem of_answer_eq_duplicate (ha : r.answer id issued names = .error (.duplicateSymbol name)) :
    r.ops.toBool ∧ name = r.name names ∧ ∃ h ∈ issued, h.name = name := by
  unfold answer at ha
  split at ha
  · cases ha
  next ops hops =>
    split at ha
    next hm =>
      cases ha
      exact ⟨by simp [hops, Except.toBool], rfl, List.mem_map.mp hm⟩
    · cases ha

theorem draws_iff : r.draws ↔ r.givenName? = none ∧ r.ops.toBool := by
  rw [draws, Bool.and_eq_true, Option.isNone_iff_eq_none]

/-- A request for a fresh name fails only if that name was issued. -/
theorem answer_of_draws (hr : r.draws) :
    (∃ h, r.answer id issued names = .ok h) ∨
      ∃ name, r.answer id issued names = .error (.duplicateSymbol name) := by
  unfold answer
  split
  next e he => simp [draws, he, Except.toBool] at hr
  · split
    · exact .inr ⟨_, rfl⟩
    · exact .inl ⟨_, rfl⟩

theorem name_of_draws (hr : r.draws) :
    r.name names = NameSupply.nameAt names.stem names.issued := by
  rw [name, (draws_iff.mp hr).1]
  rfl

end Request

/-! ### Answers by their positions -/

variable {u : Assembly} {requests : List Request} {r : Request} {h : Handle} {i j : Nat}

theorem performAll_append (u : Assembly) (requests more : List Request) :
    u.performAll (requests ++ more) =
      (((u.performAll requests).1.performAll more).1,
        (u.performAll requests).2 ++ ((u.performAll requests).1.performAll more).2) := by
  induction requests generalizing u with
  | nil => rfl
  | cons r rest ih => simp only [List.cons_append, performAll, ih]

theorem length_performAll (u : Assembly) (requests : List Request) :
    (u.performAll requests).2.length = requests.length := by
  induction requests generalizing u with
  | nil => rfl
  | cons r rest ih => exact congrArg (· + 1) (ih _)

/-- The answer at a position is given by the assembly as the requests before it leave it. -/
theorem getElem?_performAll (u : Assembly) (requests : List Request) (i : Nat) :
    (u.performAll requests).2[i]? =
      requests[i]?.map fun r => ((u.performAll (requests.take i)).1.perform r).result := by
  induction requests generalizing u i with
  | nil => rfl
  | cons r rest ih =>
    cases i with
    | zero => rfl
    | succ i => exact ih _ i

theorem performAll_take (u : Assembly) (requests : List Request) (i : Nat) :
    (u.performAll (requests.take i)).2 = (u.performAll requests).2.take i := by
  induction requests generalizing u i with
  | nil => rw [List.take_nil, performAll, List.take_nil]
  | cons r rest ih =>
    cases i with
    | zero => rfl
    | succ i => exact congrArg _ (ih _ i)

/-- How many names were drawn before the request at a position. -/
def drawnBefore (requests : List Request) (i : Nat) : Nat :=
  (requests.take i).countP Request.draws

theorem drawnBefore_lt (hr : requests[i]? = some r) (hd : r.draws) (hij : i < j) :
    drawnBefore requests i < drawnBefore requests j := by
  have hnext : drawnBefore requests (i + 1) = drawnBefore requests i + 1 := by
    simp [drawnBefore, List.take_add_one, hr, hd]
  have hmono : drawnBefore requests (i + 1) ≤ drawnBefore requests j :=
    (List.take_sublist_take_left hij).countP_le
  omega

/-- The handles at a position are those of the answers before it. -/
theorem Sound.mem_handles_take (hu : u.Sound) (hnew : u.handles = #[]) :
    h ∈ (u.performAll (requests.take i)).1.handles.toList ↔
      ∃ j < i, (u.performAll requests).2[j]? = some (.ok h) := by
  rw [(hu.performAll _).handles, hnew, performAll_take, handlesOf, List.nil_append,
    List.mem_filterMap]
  constructor
  · rintro ⟨result, hm, hr⟩
    obtain ⟨j, hj⟩ := List.mem_iff_getElem?.mp hm
    rw [List.getElem?_take] at hj
    split at hj
    next hlt =>
      cases result with
      | error e => cases hr
      | ok h' =>
        cases hr
        exact ⟨j, hlt, hj⟩
    next => cases hj
  · rintro ⟨j, hj, hr⟩
    refine ⟨.ok h, List.mem_iff_getElem?.mpr ⟨j, ?_⟩, rfl⟩
    rw [List.getElem?_take, if_pos hj, hr]

section
variable {result : Except Failure Handle} {name : String}

/-- What was answered at a position follows from the handles issued and the names drawn before. -/
theorem Sound.answer_eq (hu : u.Sound)
    (ha : (requests.zip (u.performAll requests).2)[i]? = some (r, result)) :
    requests[i]? = some r ∧
      r.answer u.id (u.performAll (requests.take i)).1.handles.toList
        (u.names.skip (drawnBefore requests i)) = result := by
  obtain ⟨hr, hresult⟩ := List.getElem?_zip_eq_some.mp ha
  have hbefore := hu.performAll (requests.take i)
  rw [getElem?_performAll, hr, Option.map_some, hbefore.sound.perform_result, hbefore.id,
    hbefore.names] at hresult
  exact ⟨hr, Option.some.inj hresult⟩

/-- A collision is over a name that was drawn then and that a kernel had before. -/
theorem Sound.of_collidesAt (hu : u.Sound)
    (hc : CollidesAt (requests.zip (u.performAll requests).2) i name) :
    (∃ r, requests[i]? = some r ∧ r.draws) ∧
      name = NameSupply.nameAt u.names.stem (u.names.issued + drawnBefore requests i) ∧
      ∃ h ∈ (u.performAll (requests.take i)).1.handles.toList, h.name = name := by
  obtain ⟨r, hgiven, ha⟩ := hc
  obtain ⟨hr, hanswer⟩ := hu.answer_eq ha
  obtain ⟨hops, hname, hissued⟩ := Request.of_answer_eq_duplicate hanswer
  have hd := Request.draws_iff.mpr ⟨hgiven, hops⟩
  exact ⟨⟨r, hr, hd⟩, hname.trans (Request.name_of_draws hd), hissued⟩

/-- A kernel is defined under a name that no kernel had before, which was drawn then or given. -/
theorem Sound.of_answered_ok (hu : u.Sound)
    (ha : (requests.zip (u.performAll requests).2)[i]? = some (r, .ok h)) :
    requests[i]? = some r ∧
      (∀ h' ∈ (u.performAll (requests.take i)).1.handles.toList, h'.name ≠ h.name) ∧
      (r.draws ∧
          h.name = NameSupply.nameAt u.names.stem (u.names.issued + drawnBefore requests i) ∨
        ∃ ops, r = .compileAs h.name ops) := by
  obtain ⟨hr, hanswer⟩ := hu.answer_eq ha
  obtain ⟨hops, hname⟩ := Request.of_answer_eq_ok hanswer
  refine ⟨hr, fun h' hm he => ?_, ?_⟩
  · exact Request.not_mem_of_answer_eq_ok hanswer (List.mem_map.mpr ⟨h', hm, he⟩)
  · cases hg : r.givenName? with
    | none =>
      have hd := Request.draws_iff.mpr ⟨hg, by rw [hops]; rfl⟩
      exact .inl ⟨hd, hname.trans (Request.name_of_draws hd)⟩
    | some given =>
      cases r with
      | compileAs given ops => exact .inr ⟨ops, congrArg (Request.compileAs · ops) hname.symm⟩
      | _ => cases hg

end

/-! ### Collisions -/

section
variable {name : String}

/-- No kernel is defined under the name of an earlier one. -/
theorem Sound.name_ne_of_lt (hu : u.Sound) (hnew : u.handles = #[]) {r' : Request} {h' : Handle}
    (hi : (requests.zip (u.performAll requests).2)[i]? = some (r, .ok h))
    (hj : (requests.zip (u.performAll requests).2)[j]? = some (r', .ok h')) (hij : i < j) :
    h.name ≠ h'.name := by
  obtain ⟨-, hfresh, -⟩ := hu.of_answered_ok hj
  exact hfresh h ((hu.mem_handles_take hnew).mpr ⟨i, hij, (List.getElem?_zip_eq_some.mp hi).2⟩)

theorem Sound.eq_of_name_eq (hu : u.Sound) (hnew : u.handles = #[]) {r' : Request} {h' : Handle}
    (hi : (requests.zip (u.performAll requests).2)[i]? = some (r, .ok h))
    (hj : (requests.zip (u.performAll requests).2)[j]? = some (r', .ok h'))
    (hname : h.name = h'.name) : i = j := by
  obtain hlt | heq | hlt := Nat.lt_trichotomy i j
  · exact absurd hname (hu.name_ne_of_lt hnew hi hj hlt)
  · exact heq
  · exact absurd hname.symm (hu.name_ne_of_lt hnew hj hi hlt)

/-- The kernel that a collision is with was defined before, under a name that was given. -/
theorem Sound.exists_compileAs_of_collidesAt (hu : u.Sound) (hnew : u.handles = #[])
    (hc : CollidesAt (requests.zip (u.performAll requests).2) i name) :
    ∃ j < i, ∃ ops h, h.name = name ∧
      (requests.zip (u.performAll requests).2)[j]? = some (.compileAs name ops, .ok h) ∧
      (u.performAll (requests.take i)).1.handle? name = some h := by
  obtain ⟨-, hdrawn, h, hm, hname⟩ := hu.of_collidesAt hc
  obtain ⟨j, hji, hj⟩ := (hu.mem_handles_take hnew).mp hm
  obtain ⟨r, hr, -⟩ := Option.map_eq_some_iff.mp (getElem?_performAll u requests j ▸ hj)
  have ha : (requests.zip (u.performAll requests).2)[j]? = some (r, .ok h) :=
    List.getElem?_zip_eq_some.mpr ⟨hr, hj⟩
  obtain ⟨-, -, ⟨hd, hdrawn'⟩ | ⟨ops, rfl⟩⟩ := hu.of_answered_ok ha
  · -- a name that was drawn before is not drawn again
    have h := NameSupply.nameAt_injective _ (hdrawn.symm.trans (hname.symm.trans hdrawn'))
    have hlt := drawnBefore_lt hr hd hji
    omega
  · have hfound := (hu.performAll (requests.take i)).sound.handle?_eq_some_iff.mpr
      ⟨Array.mem_toList_iff.mp hm, hname⟩
    exact ⟨j, hji, ops, h, hname, hname ▸ ha, hfound⟩

/-- A name is drawn once, so there is one collision over it at most. -/
theorem Sound.eq_of_collidesAt (hu : u.Sound)
    (hi : CollidesAt (requests.zip (u.performAll requests).2) i name)
    (hj : CollidesAt (requests.zip (u.performAll requests).2) j name) : i = j := by
  obtain ⟨⟨r, hr, hd⟩, hri, -⟩ := hu.of_collidesAt hi
  obtain ⟨⟨r', hr', hd'⟩, hrj, -⟩ := hu.of_collidesAt hj
  have hdrawn := NameSupply.nameAt_injective _ (hri.symm.trans hrj)
  obtain hlt | heq | hlt := Nat.lt_trichotomy i j
  · have h := drawnBefore_lt hr hd hlt
    omega
  · exact heq
  · have h := drawnBefore_lt hr' hd' hlt
    omega

theorem collision?_eq_some_iff {x : Request × Except Failure Handle} :
    collision? x = some name ↔ x.1.givenName? = none ∧ x.2 = .error (.duplicateSymbol name) := by
  unfold collision?
  split <;> simp_all

theorem collidesAt_of_collision? {answered : List (Request × Except Failure Handle)}
    {x : Request × Except Failure Handle} (hx : answered[i]? = some x)
    (hc : collision? x = some name) : CollidesAt answered i name := by
  obtain ⟨hgiven, hresult⟩ := collision?_eq_some_iff.mp hc
  exact ⟨x.1, hgiven, hx.trans (congrArg some (Prod.ext rfl hresult))⟩

/-- There are no more collisions than names that were given. -/
theorem Sound.length_collisions_le (hu : u.Sound) (hnew : u.handles = #[])
    (requests : List Request) :
    let answered := requests.zip (u.performAll requests).2
    (answered.filterMap collision?).length ≤ (answered.filterMap definition?).length := by
  intro answered
  have hnodup : (answered.filterMap collision?).Nodup := by
    rw [List.Nodup, List.pairwise_filterMap, List.pairwise_iff_getElem]
    rintro i j hi hj hij name hname _ hname' rfl
    exact Nat.ne_of_lt hij (hu.eq_of_collidesAt
      (collidesAt_of_collision? (List.getElem?_eq_getElem hi) hname)
      (collidesAt_of_collision? (List.getElem?_eq_getElem hj) hname'))
  have hsub : answered.filterMap collision? ⊆ answered.filterMap definition? := by
    intro name hm
    obtain ⟨x, hx, hname⟩ := List.mem_filterMap.mp hm
    obtain ⟨i, hi⟩ := List.mem_iff_getElem?.mp hx
    obtain ⟨j, -, ops, h, -, hj, -⟩ :=
      hu.exists_compileAs_of_collidesAt hnew (collidesAt_of_collision? hi hname)
    exact List.mem_filterMap.mpr ⟨_, List.mem_of_getElem? hj, rfl⟩
  exact (List.subperm_of_subset hnodup hsub).length_le

/-- Where requests for fresh names fail, each of them is a collision. -/
theorem Sound.exists_collision? (hu : u.Sound) (hd : ∀ r ∈ requests, r.draws)
    (hfail : ∀ h, .ok h ∉ (u.performAll requests).2) :
    ∀ x ∈ requests.zip (u.performAll requests).2, ∃ name, collision? x = some name := by
  rintro ⟨r, result⟩ hx
  obtain ⟨hr, hresult⟩ := List.of_mem_zip hx
  obtain ⟨i, hi⟩ := List.mem_iff_getElem?.mp hx
  obtain ⟨-, hanswer⟩ := hu.answer_eq hi
  obtain ⟨h, hok⟩ | ⟨name, herror⟩ := Request.answer_of_draws (hd r hr)
  · exact absurd (hanswer.symm.trans hok ▸ hresult) (hfail h)
  · have hgiven := (Request.draws_iff.mp (hd r hr)).1
    exact ⟨name, collision?_eq_some_iff.mpr ⟨hgiven, hanswer.symm.trans herror⟩⟩

/-- More requests for fresh names than names were given do not all fail. -/
theorem Sound.exists_ok (hu : u.Sound) (hnew : u.handles = #[]) {more : List Request}
    (hd : ∀ r ∈ more, r.draws)
    (hlt : ((requests.zip (u.performAll requests).2).filterMap definition?).length < more.length) :
    ∃ h, .ok h ∈ ((u.performAll requests).1.performAll more).2 := by
  by_contra hfail
  have hall := (hu.performAll requests).sound.exists_collision? hd (not_exists.mp hfail)
  have hle := hu.length_collisions_le hnew (requests ++ more)
  rw [performAll_append, List.zip_append (length_performAll u requests).symm] at hle
  simp only [List.filterMap_append, List.length_append] at hle
  -- the requests at the end make for as many collisions more, and for no definition
  generalize hlate : more.zip ((u.performAll requests).1.performAll more).2 = late at hall hle
  have hlength : late.length = more.length := by
    rw [← hlate, List.length_zip, length_performAll, Nat.min_self]
  have hcollisions : (late.filterMap collision?).length = late.length := by
    rw [List.length_filterMap_eq_countP, List.countP_eq_length]
    exact fun x hx => Option.isSome_iff_exists.mpr (hall x hx)
  have hdefinitions : late.filterMap definition? = [] := by
    refine List.filterMap_eq_nil_iff.mpr fun x hx => ?_
    obtain ⟨name, hname⟩ := hall x hx
    obtain ⟨hgiven, -⟩ := collision?_eq_some_iff.mp hname
    simp [definition?, hgiven]
  rw [hcollisions, hdefinitions, hlength, List.length_nil] at hle
  omega

/-- Whatever has been asked of a new assembly: a request for a fresh name that fails as its name
is defined collides with a kernel that an earlier request gave this name, and no other request
defines a kernel of the name. Different requests collide with different kernels, so there are no
more of them than kernels whose names were given; and among more requests for fresh names than that,
made one after the other, one succeeds. -/
theorem collisions_performAll {id : Nat} {settings : Settings} {names : NameSupply} {u₀ : Assembly}
    (h₀ : create id settings names = .ok u₀) (requests : List Request) :
    let (u, results) := u₀.performAll requests
    let answered := requests.zip results
    (∀ i name, CollidesAt answered i name → ∃ j < i, ∃ ops h,
      answered[j]? = some (.compileAs name ops, .ok h) ∧
      (u₀.performAll (requests.take i)).1.handle? name = some h ∧
      ∀ k r h', answered[k]? = some (r, .ok h') → h'.name = name → k = j) ∧
    (∀ i i' name, CollidesAt answered i name → CollidesAt answered i' name → i = i') ∧
    (answered.filterMap collision?).length ≤ (answered.filterMap definition?).length ∧
    ∀ more : List Request, (∀ r ∈ more, r.draws) →
      (answered.filterMap definition?).length < more.length →
      ∃ h, .ok h ∈ (u.performAll more).2 := by
  obtain rfl := create_eq_ok h₀
  have hu := sound_empty id settings names
  have hnew := handles_empty id settings names
  refine ⟨fun i name hc => ?_, fun i i' name => hu.eq_of_collidesAt,
    hu.length_collisions_le hnew requests, fun more => hu.exists_ok hnew⟩
  obtain ⟨j, hji, ops, h, hname, ha, hfound⟩ := hu.exists_compileAs_of_collidesAt hnew hc
  exact ⟨j, hji, ops, h, ha, hfound,
    fun k r h' hk hname' => hu.eq_of_name_eq hnew hk ha (hname'.trans hname.symm)⟩

/-- Two names are given before they are drawn: both draws fail, and the third one does not. -/
theorem collisions_performAll_two :
    let requests : List Request :=
      [.compileAs "k_1" ⟨.plus, .minus⟩, .compileAs "k_0" ⟨.divide, .plus⟩]
    let more : List Request := [.compile ⟨.plus, .plus⟩, .compileWritten (.text "*") (.text "-"),
      .compile ⟨.minus, .plus⟩]
    let (u, results) := (empty 3 {} (.new "k")).performAll requests
    ((requests.zip results).filterMap definition?).length < more.length ∧
      (u.performAll more).2.take 2 =
        [.error (.duplicateSymbol "k_0"), .error (.duplicateSymbol "k_1")] ∧
      ∃ h, .ok h ∈ (u.performAll more).2 := by
  intro requests more
  have hcreate : create 3 {} (.new "k") = .ok (empty 3 {} (.new "k")) := rfl
  have hh := (sound_empty 3 {} (.new "k")).performAll requests
  have hresults : ((empty 3 {} (.new "k")).performAll requests).2 =
      [.ok ⟨"k_1", ⟨.plus, .minus⟩, 0, 3⟩, .ok ⟨"k_0", ⟨.divide, .plus⟩, 1, 3⟩] :=
    hh.results.trans (by rw [handles_empty]; decide)
  have hlt : ((requests.zip ((empty 3 {} (.new "k")).performAll requests).2).filterMap
      definition?).length < more.length := by
    rw [hresults]
    decide
  have hmore : (((empty 3 {} (.new "k")).performAll requests).1.performAll more).2.take 2 =
      [.error (.duplicateSymbol "k_0"), .error (.duplicateSymbol "k_1")] := by
    rw [(hh.sound.performAll more).results, hh.id, hh.handles, hh.names, hresults, handles_empty]
    decide
  obtain ⟨-, -, -, hsuccess⟩ := collisions_performAll hcreate requests
  exact ⟨hlt, hmore, hsuccess more (by decide) hlt⟩

end

end Assembly

end FusedKernel
