import FusedKernel.Proofs.Sampling.Rejection

/-! Calls to one source of vectors. A call for values gives members of its range, exact up to the
range of all words. Calls for more are calls for fewer, one after the other, with the stream at the
same place in the end; and a refused call leaves no trace. -/
namespace FusedKernel.Sampling

variable {r : Range} {m n : Nat} {s : Keystream}

/-! ### Values -/

namespace Range

/-- The number of members, if there are any. -/
def size (r : Range) : Int := r.hi.toInt - r.lo.toInt + 1

/-- The member that is drawn at a place of the stream. Among all words it is the next word itself.
In any other range the next two words are read as one number, and the members below the one that is
drawn are the same part of all members as the numbers below that one are of all such numbers. -/
def memberAt (r : Range) (s : Keystream) : Int :=
  if r.size = wordCount then s.word.toBitVec.toInt
  else r.lo.toInt + s.pair * r.size / (wordCount * wordCount)

theorem toInt_wordIn_eq_memberAt (h : r.isEmpty = false) (s : Keystream) :
    (wordIn r s).1.toInt = r.memberAt s := by
  have hall := count_of_not_isEmpty h
  rw [memberAt]
  split at hall
  next hcount =>
    have hsize : r.size = wordCount := by
      rw [size, hall.1, hall.2]
      rfl
    rw [if_pos hsize, wordIn, if_pos hcount]
    rfl
  next hcount =>
    have hsize : r.size = r.count := hall.symm
    have hlt : r.size ≠ wordCount := by
      have := r.count_lt
      omega
    rw [if_neg hlt, toInt_wordIn h hcount, hsize, offset, Int.natCast_ediv]
    rfl

end Range

theorem drawMany_fst (draw : Keystream → Word × Keystream) (n : Nat) (s : Keystream) :
    (drawMany draw n s).1 =
      (List.range n).map fun i => (draw ((fun t => (draw t).2)^[i] s)).1 := by
  induction n generalizing s with
  | zero => rfl
  | succ n ih =>
    rw [drawMany_succ, ih, List.range_succ_eq_map, List.map_cons, List.map_map]
    rfl

/-- Values of a range are given wherever it has members: as many as are asked for, and each between
the ends, those included. As integers, they are the members for the places that the stream passes
through: no sum has wrapped. -/
theorem values_between (n : Nat) {r : Range} (h : r.lo.toInt ≤ r.hi.toInt) (s : Keystream) :
    ∃ ws s', values n r s = .ok (ws, s') ∧ ws.length = n ∧
      (∀ w ∈ ws, r.lo.toInt ≤ w.toInt ∧ w.toInt ≤ r.hi.toInt) ∧
      ws.map BitVec.toInt = (List.range n).map fun i => r.memberAt ((advance r)^[i] s) := by
  have hr : r.isEmpty = false := by
    rw [← Bool.not_eq_true, Range.isEmpty_iff]
    exact Int.not_lt.mpr h
  refine ⟨_, _, values_of_not_isEmpty hr n s, ?_, fun w hw => ?_, ?_⟩
  · rw [drawMany_fst, List.length_map, List.length_range]
  · exact Range.contains_iff.mp (contains_of_mem_drawMany hr w hw)
  · rw [drawMany_fst, List.map_map]
    exact List.map_congr_left fun i _ => Range.toInt_wordIn_eq_memberAt hr _

/-- Most of all words, at a place where the first draw is carried up by a second word. -/
theorem values_between_wide :
    let r : Range := ⟨-0x7fffffff, 0x70000000⟩
    r.lo.toInt ≤ r.hi.toInt ∧
    ∃ ws s', values 3 r (.ofSeed 1) = .ok (ws, s') ∧ ws.length = 3 ∧
      (∀ w ∈ ws, r.lo.toInt ≤ w.toInt ∧ w.toInt ≤ r.hi.toInt) ∧
      ws.map BitVec.toInt =
        (List.range 3).map fun i => r.memberAt ((advance r)^[i] (.ofSeed 1)) := by
  intro r
  have h : r.lo.toInt ≤ r.hi.toInt := by decide
  exact ⟨h, values_between 3 h (.ofSeed 1)⟩

/-! ### Calls for more -/

/-- Two calls one after the other, with the words of both. -/
def followedBy (first second : Keystream → Except SampleError (List Word × Keystream))
    (s : Keystream) : Except SampleError (List Word × Keystream) := do
  let (ws, s) ← first s
  let (ws', s) ← second s
  return (ws ++ ws', s)

theorem values_add (m n : Nat) (r : Range) :
    values (m + n) r = followedBy (values m r) (values n r) := by
  funext s
  cases hr : r.isEmpty with
  | false =>
    simp only [followedBy, values_of_not_isEmpty hr, drawMany_add]
    rfl
  | true =>
    -- the first call is refused unless it asks for no words
    cases m with
    | zero =>
      rw [Nat.zero_add]
      cases n with
      | zero => rfl
      | succ n => simp [followedBy, values, hr, bind, Except.bind, drawMany]
    | succ m => simp [followedBy, values, hr, Nat.succ_add, bind, Except.bind]

theorem divisorList_add (r : Range) (m n : Nat) (s : Keystream) :
    divisorList r (m + n) s = (do
      let (ws, s) ← divisorList r m s
      let (ws', s) ← divisorList r n s
      return (ws ++ ws', s)) := by
  induction m generalizing s with
  | zero => simp [divisorList]
  | succ m ih =>
    simp only [Nat.succ_add, divisorList, ih, bind_assoc, pure_bind, List.cons_append]

theorem divisors_add (m n : Nat) (r : Range) :
    divisors (m + n) r = followedBy (divisors m r) (divisors n r) := by
  funext s
  cases hsafe : r.hasSafeDivisor with
  | false => simp [followedBy, divisors, hsafe, bind, Except.bind]
  | true =>
    simp only [followedBy, divisors, hsafe, if_true, divisorList_add]
    cases divisorList r m s with
    | none => rfl
    | some first =>
      cases hsecond : divisorList r n first.2 with
      | none => simp [hsecond, bind, Except.bind]
      | some second => simp [hsecond, bind, Except.bind, pure, Except.pure]

/-- The range of all words. -/
def Range.all : Range := ⟨BitVec.intMin 32, BitVec.intMax 32⟩

theorem values_all (n : Nat) (s : Keystream) : values n .all s = .ok (fullRange n s) := by
  have hdraw : wordIn .all = anyWord := by
    funext s
    rfl
  rw [values_of_not_isEmpty rfl, hdraw]
  rfl

/-! ### Refused calls -/

namespace Request

/-- Why a call is refused, wherever the stream is: values are asked for and there are none, or safe
divisors, in whatever number, of a range that has at most zero and minus one. -/
def refusal? : Request → Option SampleError
  | fullRange _ => none
  | values n r => if 0 < n ∧ r.hi.toInt < r.lo.toInt then some .emptyRange else none
  | divisors _ r =>
    if r.hi.toInt < r.lo.toInt ∨ -1 ≤ r.lo.toInt ∧ r.hi.toInt ≤ 0 then some (.noSafeDivisor r)
    else none

variable {q : Request}

theorem serve_of_refusal {e : SampleError} (h : q.refusal? = some e) (s : Keystream) :
    q.serve s = (.error e, s) := by
  cases q with
  | fullRange n => cases h
  | values n r =>
    obtain ⟨⟨hn, hr⟩, rfl⟩ : (0 < n ∧ r.hi.toInt < r.lo.toInt) ∧ SampleError.emptyRange = e := by
      simpa [refusal?] using h
    rw [serve, Sampling.values, if_pos ⟨hn, Range.isEmpty_iff.mpr hr⟩]
    rfl
  | divisors n r =>
    obtain ⟨hr, rfl⟩ : (r.hi.toInt < r.lo.toInt ∨ -1 ≤ r.lo.toInt ∧ r.hi.toInt ≤ 0) ∧
        SampleError.noSafeDivisor r = e := by
      simpa [refusal?] using h
    have hsafe : ¬r.hasSafeDivisor := by
      rw [Range.hasSafeDivisor_iff_toInt]
      omega
    rw [serve, divisors_eq_noSafeDivisor_iff.mpr hsafe]
    rfl

/-- A call that is not refused is answered, unless it searches for safe divisors without end. -/
theorem serve_of_not_refused (h : q.refusal? = none) (s : Keystream) :
    (∃ ws s', q.serve s = (.ok ws, s')) ∨
      (∃ n r, q = divisors n r) ∧ (q.serve s).1 = .error .endless := by
  cases q with
  | fullRange n => exact .inl ⟨_, _, rfl⟩
  | values n r =>
    have hr : ¬(0 < n ∧ r.isEmpty) := by
      rw [Range.isEmpty_iff]
      simpa [refusal?] using h
    rw [serve, Sampling.values, if_neg hr]
    exact .inl ⟨_, _, rfl⟩
  | divisors n r =>
    have hsafe : r.hasSafeDivisor := by
      rw [Range.hasSafeDivisor_iff_toInt]
      simp only [refusal?, ite_eq_right_iff, reduceCtorEq, imp_false] at h
      omega
    rw [serve]
    cases hd : Sampling.divisors n r s with
    | ok result => exact .inl ⟨_, _, rfl⟩
    | error e =>
      obtain rfl | rfl := of_divisors_eq_error hd
      · exact absurd hsafe (divisors_eq_noSafeDivisor_iff.mp hd)
      · exact .inr ⟨⟨n, r, rfl⟩, rfl⟩

end Request

/-- Calls with their answers. -/
def exchanges (s : Keystream) (requests : List Request) :
    List (Request × Except SampleError (List Word)) :=
  requests.zip (serveAll s requests)

theorem exchanges_cons (s : Keystream) (q : Request) (rest : List Request) :
    exchanges s (q :: rest) = (q, (q.serve s).1) :: exchanges (q.serve s).2 rest := rfl

/-- Without the refused calls, the others are answered as they are with them. -/
theorem exchanges_filter (s : Keystream) (requests : List Request) :
    exchanges s (requests.filter fun q => q.refusal?.isNone) =
      (exchanges s requests).filter fun x => x.1.refusal?.isNone := by
  induction requests generalizing s with
  | nil => rfl
  | cons q rest ih =>
    rw [exchanges_cons, List.filter_cons, List.filter_cons]
    cases hq : q.refusal? with
    | none => simp [exchanges_cons, ih]
    | some e => simp [Request.serve_of_refusal hq, ih]

/-- A call for some more words than another is that other call, followed by one for the rest on the
stream that it leaves: the words are the same in order, and so is the place of the stream after
them. This holds of words, of values and of safe divisors alike; the search for all of the divisors
ends exactly if it does for both parts. Words are values of the range of all words. Which calls are
refused depends on the call alone, and all others are answered but for searches without end. A
refused call draws nothing, so that it can be left out of any calls without a change to the answers
of the others. -/
theorem calls_compose (s : Keystream) :
    (∀ m n, fullRange (m + n) s =
      let first := fullRange m s
      let second := fullRange n first.2
      (first.1 ++ second.1, second.2)) ∧
    (∀ m n r, values (m + n) r s = followedBy (values m r) (values n r) s) ∧
    (∀ m n r, divisors (m + n) r s = followedBy (divisors m r) (divisors n r) s) ∧
    (∀ n, values n .all s = .ok (fullRange n s)) ∧
    (∀ (q : Request) e, q.refusal? = some e → q.serve s = (.error e, s)) ∧
    (∀ q : Request, q.refusal? = none → (∃ ws s', q.serve s = (.ok ws, s')) ∨
      (∃ n r, q = .divisors n r) ∧ (q.serve s).1 = .error .endless) ∧
    ∀ requests, exchanges s (requests.filter fun q => q.refusal?.isNone) =
      (exchanges s requests).filter fun x => x.1.refusal?.isNone :=
  ⟨fun m n => drawMany_add anyWord m n s, fun m n r => congrFun (values_add m n r) s,
    fun m n r => congrFun (divisors_add m n r) s, fun n => values_all n s,
    fun _ _ hq => Request.serve_of_refusal hq s, fun _ hq => Request.serve_of_not_refused hq s,
    exchanges_filter s⟩

end FusedKernel.Sampling
