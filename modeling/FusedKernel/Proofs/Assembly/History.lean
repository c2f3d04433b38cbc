import FusedKernel.Proofs.Assembly.Invariant

/-! Sequences of requests. One request is answered by the handles issued so far and the supply of
names; by induction, so are all. The tables of the assembly agree with the answers at any time. -/
namespace FusedKernel.Assembly

namespace Request

variable {id : Nat} {issued : List Handle} {names : NameSupply} {r : Request} {h : Handle}

/-- A handle is issued for the operators and the name that were asked for. -/
theorem of_answer_eq_ok (ha : r.answer id issued names = .ok h) :
    r.ops = .ok h.ops ∧ h.name = r.name names := by
  unfold answer at ha
  split at ha
  · cases ha
  next ops hops =>
    split at ha
    · cases ha
    · cases ha
      exact ⟨hops, rfl⟩

theorem of_mem_answers {requests : List Request}
    (hm : (r, .ok h) ∈ requests.zip (answers id issued names requests)) :
    r.ops = .ok h.ops ∧ ∀ name ∈ r.givenName?, h.name = name := by
  induction requests generalizing issued names with
  | nil => cases hm
  | cons first rest ih =>
    obtain heq | hm := List.mem_cons.mp hm
    · obtain ⟨rfl, ha⟩ := Prod.mk.inj heq
      obtain ⟨hops, hname⟩ := of_answer_eq_ok ha.symm
      refine ⟨hops, fun name hn => ?_⟩
      rw [hname, Request.name, hn, Option.getD_some]
    · exact ih hm

end Request

variable {u : Assembly} {r : Request} {ops : OperatorPair}

/-! ### One request -/

/-- A request for known operators compiles them under its name, which it may have drawn. -/
theorem perform_of_ops (hops : r.ops = .ok ops) :
    u.perform r =
      ({ u with names := u.names.skip r.draws.toNat } : Assembly).compileAs (r.name u.names)
        ops := by
  cases r with
  | compile ops' => cases hops; rfl
  | compileAs name ops' => cases hops; rfl
  | compileWritten first second =>
    cases hr : Operator.readPair first second with
    | error e => simp [Request.ops, hr, Except.map] at hops
    | ok pair =>
      have hpair : ops = ⟨pair.1, pair.2⟩ := by simpa [Request.ops, hr, Except.map] using hops.symm
      have hdraws : (Request.compileWritten first second).draws = true := by
        rw [Request.draws, hops]
        rfl
      simp only [Assembly.perform, Assembly.compileWritten, hr, hdraws, hpair]
      rfl

/-- A request with an unknown operator changes nothing. -/
theorem perform_of_unknown {e : UnsupportedOperator} (he : r.ops = .error e) :
    u.perform r = ⟨u, .error (.unsupportedOperator e), []⟩ := by
  cases r with
  | compile ops => cases he
  | compileAs name ops => cases he
  | compileWritten first second =>
    cases hr : Operator.readPair first second with
    | error e' =>
      have he : e' = e := by simpa [Request.ops, hr, Except.map] using he
      simp only [Assembly.perform, Assembly.compileWritten, hr, he]
    | ok pair => simp [Request.ops, hr, Except.map] at he

theorem Sound.perform (hu : u.Sound) (r : Request) : u.ExtendedBy (u.perform r) := by
  cases hops : r.ops with
  | error e => exact perform_of_unknown hops ▸ hu.extendedBy_error _ _
  | ok ops =>
    have h := (hu.withNames (u.names.skip r.draws.toNat)).compileAs (r.name u.names) ops
    rw [perform_of_ops hops]
    exact ⟨h.sound, h.id, h.settings, h.handles⟩

theorem Sound.perform_result (hu : u.Sound) (r : Request) :
    (u.perform r).result = r.answer u.id u.handles.toList u.names := by
  cases hops : r.ops with
  | error e => simp only [perform_of_unknown hops, Request.answer, hops]
  | ok ops =>
    rw [perform_of_ops hops, (hu.withNames _).compileAs_result]
    simp only [Request.answer, hops, Array.length_toList, size_handles]
    rfl

theorem Sound.perform_names (hu : u.Sound) (r : Request) :
    (u.perform r).assembly.names = u.names.skip r.draws.toNat := by
  cases hops : r.ops with
  | error e =>
    have hdraws : r.draws = false := by simp [Request.draws, hops, Except.toBool]
    rw [perform_of_unknown hops, hdraws]
    rfl
  | ok ops => rw [perform_of_ops hops, (hu.withNames _).compileAs_names]

/-! ### Whole sequences -/

/-- What a sequence of requests makes of an assembly. -/
structure History (u : Assembly) (requests : List Request) (v : Assembly)
    (results : List (Except Failure Handle)) : Prop where
  sound : v.Sound
  id : v.id = u.id
  settings : v.settings = u.settings
  handles : v.handles.toList = u.handles.toList ++ handlesOf results
  results : results = Request.answers u.id u.handles.toList u.names requests
  names : v.names = u.names.skip (requests.countP Request.draws)

theorem handlesOf_cons (result : Except Failure Handle) (results : List (Except Failure Handle)) :
    handlesOf (result :: results) = result.toOption.toList ++ handlesOf results := by
  cases result <;> rfl

theorem Sound.performAll (hu : u.Sound) (requests : List Request) :
    u.History requests (u.performAll requests).1 (u.performAll requests).2 := by
  induction requests generalizing u with
  | nil => exact ⟨hu, rfl, rfl, (List.append_nil _).symm, rfl, rfl⟩
  | cons r rest ih =>
    have hr := hu.perform r
    have hresult := hu.perform_result r
    have hnames := hu.perform_names r
    have h := ih hr.sound
    refine ⟨h.sound, h.id.trans hr.id, h.settings.trans hr.settings, ?_, ?_, ?_⟩
    · refine h.handles.trans ?_
      rw [hr.handles, List.append_assoc, ← handlesOf_cons]
      rfl
    · refine congrArg₂ List.cons hresult (h.results.trans ?_)
      rw [hr.id, hr.handles, hresult, hnames]
    · refine h.names.trans ?_
      rw [hnames, List.countP_cons]
      cases r.draws <;> simp [NameSupply.skip, Nat.add_comm, Nat.add_left_comm]

/-- What has been asked of a new assembly can be read off it at any time: its kernels are those of
the handles that were issued, in order and under distinct names, and only drawn names were taken
from the supply. -/
theorem performAll_create {id : Nat} {settings : Settings} {names : NameSupply} {u₀ : Assembly}
    (h : create id settings names = .ok u₀) (requests : List Request) :
    let (u, results) := u₀.performAll requests
    results = Request.answers id [] names requests ∧
    u.handles.toList = handlesOf results ∧
    (u.handles.toList.map Handle.name).Nodup ∧
    (∀ (k : Nat) (h : Handle), u.handles[k]? = some h → h.number = k ∧ h.owner = id) ∧
    (∀ name h, u.handle? name = some h ↔ h ∈ u.handles ∧ h.name = name) ∧
    (∀ (k : Nat) (h : Handle), u.handles[k]? = some h →
      u.text? h.name = if settings.keepText then some (h.ops.toFunction k).lines else none) ∧
    u.names = names.skip (requests.countP Request.draws) := by
  obtain rfl := create_eq_ok h
  have hh := (sound_empty id settings names).performAll requests
  refine ⟨?_, ?_, hh.sound.nodup, fun k h hk => ⟨?_, ?_⟩, fun name h => ?_,
    fun k h hk => ?_, hh.names⟩
  · exact hh.results.trans (by rw [handles_empty]; rfl)
  · exact hh.handles.trans (by rw [handles_empty]; rfl)
  · exact hh.sound.number k h hk
  · exact (hh.sound.owner h (Array.mem_of_getElem? hk)).trans hh.id
  · exact hh.sound.handle?_eq_some_iff
  · rw [text?, hh.sound.entry?_name (Array.mem_of_getElem? hk), ← hh.sound.number k h hk]
    exact congrArg (fun s : Settings => if s.keepText then _ else _) hh.settings

/-- A drawn name that was given before is used up by the failure. -/
theorem performAll_create_collision :
    let requests : List Request := [.compileAs "k_0" ⟨.plus, .minus⟩, .compile ⟨.divide, .plus⟩,
      .compileWritten (.text "+") (.text "?"), .compileWritten (.text "/") (.text "plus")]
    let (u, results) := (empty 3 {} (.new "k")).performAll requests
    results = [.ok ⟨"k_0", ⟨.plus, .minus⟩, 0, 3⟩, .error (.duplicateSymbol "k_0"),
      .error (.unsupportedOperator ⟨"?"⟩), .ok ⟨"k_1", ⟨.divide, .plus⟩, 1, 3⟩] ∧
    u.handles.toList = [⟨"k_0", ⟨.plus, .minus⟩, 0, 3⟩, ⟨"k_1", ⟨.divide, .plus⟩, 1, 3⟩] ∧
    u.names = ⟨"k", 2⟩ := by
  intro requests
  have hcreate : create 3 {} (.new "k") = .ok (empty 3 {} (.new "k")) := rfl
  obtain ⟨hresults, hhandles, -, -, -, -, hnames⟩ := performAll_create hcreate requests
  have hall : ((empty 3 {} (.new "k")).performAll requests).2 =
      [.ok ⟨"k_0", ⟨.plus, .minus⟩, 0, 3⟩, .error (.duplicateSymbol "k_0"),
        .error (.unsupportedOperator ⟨"?"⟩), .ok ⟨"k_1", ⟨.divide, .plus⟩, 1, 3⟩] :=
    hresults.trans (by decide)
  exact ⟨hall, hhandles.trans (congrArg handlesOf hall), hnames.trans (by decide)⟩

end FusedKernel.Assembly
