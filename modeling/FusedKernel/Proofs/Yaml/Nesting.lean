import Mathlib.Tactic.Common
import FusedKernel.Yaml.Document

/-! How the events of a document nest. What is expected next and later is a promise: nodes, then
nodes or pairs of nodes up to the end of each open collection, and the end of the document behind
them. Every event leaves a promise that it completes, so a run that reaches the end of the document
has kept the first one. -/
namespace FusedKernel.Yaml

/-- What an event contributes to the nesting. -/
inductive Shape
  | leaf
  | sequence
  | mapping
  | close
  | stop
  deriving DecidableEq

def Event.shape : Event → Shape
  | .reference _ | .scalar _ _ _ _ => .leaf
  | .sequenceStart _ _ => .sequence
  | .mappingStart _ _ => .mapping
  | .sequenceEnd | .mappingEnd => .close
  | .documentEnd => .stop

/-- What is still to come of a document. -/
inductive Need
  | node
  /-- Any number of nodes and the end of a collection. -/
  | nodes
  /-- Any number of pairs of nodes and the end of a collection. -/
  | pairs
  /-- The end of the document. -/
  | stop
  deriving DecidableEq

/-- Some shapes are all that was to come. -/
inductive Fills : List Need → List Shape → Prop
  | stop (needs : List Need) : Fills (.stop :: needs) [.stop]
  | leaf {needs : List Need} {shapes : List Shape} (h : Fills needs shapes) :
    Fills (.node :: needs) (.leaf :: shapes)
  | sequence {needs : List Need} {shapes : List Shape} (h : Fills (.nodes :: needs) shapes) :
    Fills (.node :: needs) (.sequence :: shapes)
  | mapping {needs : List Need} {shapes : List Shape} (h : Fills (.pairs :: needs) shapes) :
    Fills (.node :: needs) (.mapping :: shapes)
  | oneMore {needs : List Need} {shapes : List Shape}
    (h : Fills (.node :: .nodes :: needs) shapes) : Fills (.nodes :: needs) shapes
  | pairMore {needs : List Need} {shapes : List Shape}
    (h : Fills (.node :: .node :: .pairs :: needs) shapes) : Fills (.pairs :: needs) shapes
  | nodesEnd {needs : List Need} {shapes : List Shape} (h : Fills needs shapes) :
    Fills (.nodes :: needs) (.close :: shapes)
  | pairsEnd {needs : List Need} {shapes : List Shape} (h : Fills needs shapes) :
    Fills (.pairs :: needs) (.close :: shapes)

/-! ### Promises -/

/-- What an expectation promises, before what is expected later. A pair that stands in brackets by
itself ends like a mapping of one pair. -/
def Expectation.needs : Expectation → List Need
  | .content | .node => [.node]
  | .documentEnd => [.stop]
  | .entry | .flatEntry | .flowEntry _ => [.nodes]
  | .key | .flowKey _ => [.pairs]
  | .value | .flowValue | .noFlowValue => [.node, .pairs]
  | .pairKey => [.node, .node, .pairs, .nodes]
  | .pairValue => [.node, .pairs, .nodes]
  | .pairEnd => [.pairs, .nodes]

/-- What all that is expected promises. -/
def promises (later : List Expectation) : List Need := later.flatMap Expectation.needs ++ [.stop]

theorem promises_cons (e : Expectation) (later : List Expectation) :
    promises (e :: later) = e.needs ++ promises later := by
  rw [promises, List.flatMap_cons, List.append_assoc, promises]

namespace Cursor

def needs (c : Cursor) : List Need := c.expects.needs ++ promises c.later

/-- The next event, if there is one, and the promise that it leaves keep a promise. -/
def Keeps (needs : List Need) (next : Option (Event × Cursor)) : Prop :=
  ∀ e c, next = some (e, c) →
    e ≠ .documentEnd ∧ ∀ shapes, Fills c.needs shapes → Fills needs (e.shape :: shapes)

variable {c : Cursor} {needs : List Need} {tokens : List Token} {event : Event}

theorem keeps_none (needs : List Need) : Keeps needs none := fun _ _ h => by cases h

theorem Keeps.mono {needs' : List Need} {next : Option (Event × Cursor)} (h : Keeps needs next)
    (hn : ∀ shapes, Fills needs shapes → Fills needs' shapes) : Keeps needs' next :=
  fun e c he => ⟨(h e c he).1, fun shapes hs => hn _ ((h e c he).2 shapes hs)⟩

theorem fills_of_pop {shapes : List Shape} (h : Fills c.pop.needs shapes) :
    Fills (promises c.later) shapes := by
  unfold pop at h
  cases hl : c.later with
  | nil =>
    simp only [hl] at h
    cases h
    exact .stop []
  | cons e later =>
    simp only [hl] at h
    rw [promises_cons]
    exact h

theorem keeps_giveLast (hne : event ≠ .documentEnd)
    (h : ∀ shapes, Fills (promises c.later) shapes → Fills needs (event.shape :: shapes)) :
    Keeps needs (c.giveLast event tokens) := by
  intro e c' he
  obtain ⟨rfl, rfl⟩ := Prod.mk.inj (Option.some.inj he)
  exact ⟨hne, fun shapes hs => h shapes (fills_of_pop (c := { c with tokens }) hs)⟩

theorem keeps_give {expects : Expectation} (hne : event ≠ .documentEnd)
    (h : ∀ shapes, Fills (expects.needs ++ promises c.later) shapes →
      Fills needs (event.shape :: shapes)) : Keeps needs (c.give event tokens expects) := by
  intro e c' he
  obtain ⟨rfl, rfl⟩ := Prod.mk.inj (Option.some.inj he)
  exact ⟨hne, h⟩

theorem keeps_bind {α : Type} {x : Option α} {f : α → Option (Event × Cursor)}
    (h : ∀ a, Keeps needs (f a)) : Keeps needs (x >>= f) := by
  cases x with
  | none => exact keeps_none needs
  | some a => exact h a

theorem keeps_node (c : Cursor) (block flat : Bool) :
    Keeps (.node :: promises c.later) (c.node block flat) := by
  unfold node
  split
  · exact keeps_giveLast nofun fun _ => .leaf
  · generalize properties c.tokens = p
    dsimp only
    -- the same content may follow with a tag and without one
    split
    all_goals
      refine keeps_bind fun tag => ?_
      split
      · exact keeps_none _
      · exact keeps_giveLast nofun fun _ => .leaf
      · exact keeps_give nofun fun _ => .sequence
      · exact keeps_give nofun fun _ => .mapping
      · split
        · exact keeps_give nofun fun _ => .sequence
        · split
          · exact keeps_give nofun fun _ => .sequence
          · split
            · exact keeps_give nofun fun _ => .mapping
            · split
              · exact keeps_giveLast nofun fun _ => .leaf
              · exact keeps_none _

theorem keeps_nodeUnless (c : Cursor) (tokens absent : List Token) (after : Expectation)
    (block flat : Bool) :
    Keeps (.node :: (after.needs ++ promises c.later))
      (c.nodeUnless tokens absent after block flat) := by
  cases tokens with
  | nil => exact keeps_none _
  | cons t ts =>
    have h := keeps_node { c with tokens := t :: ts, later := after :: c.later } block flat
    rw [promises_cons] at h
    rw [nodeUnless]
    split
    · exact keeps_give nofun fun _ => .leaf
    · exact h

theorem keeps_flowKey (c : Cursor) (ts : List Token) :
    Keeps (.pairs :: promises c.later) (c.flowKey ts) := by
  unfold flowKey
  split
  · exact keeps_giveLast nofun fun _ => .pairsEnd
  · exact (keeps_nodeUnless c _ _ .flowValue false false).mono fun _ => .pairMore
  · exact keeps_none _
  · have h := keeps_node { c with tokens := ts, later := .noFlowValue :: c.later } false false
    rw [promises_cons] at h
    exact h.mono fun _ => .pairMore

theorem keeps_flowEntry (c : Cursor) (ts : List Token) :
    Keeps (.nodes :: promises c.later) (c.flowEntry ts) := by
  unfold flowEntry
  split
  · exact keeps_giveLast nofun fun _ => .nodesEnd
  · exact keeps_give nofun fun _ h => .oneMore (.mapping (.pairMore h))
  · exact keeps_none _
  · have h := keeps_node { c with tokens := ts, later := .flowEntry false :: c.later } false false
    rw [promises_cons] at h
    exact h.mono fun _ => .oneMore

/-- Every event but the end of the document is a step towards what was promised. -/
theorem keeps_next (c : Cursor) (hc : c.expects ≠ .documentEnd) : Keeps c.needs c.next := by
  unfold needs next
  cases he : c.expects with
  | documentEnd => exact absurd he hc
  | content =>
    split <;> try cases ‹Expectation.content = _›
    · exact keeps_none _
    · split
      all_goals first
        | exact keeps_giveLast nofun fun _ => .leaf
        | exact keeps_node c true false
  | node =>
    split <;> try cases ‹Expectation.node = _›
    · exact keeps_none _
    · exact keeps_node c true false
  | entry =>
    split <;> try cases ‹Expectation.entry = _›
    · exact keeps_none _
    · exact (keeps_nodeUnless c _ _ .entry true false).mono fun _ => .oneMore
    · exact keeps_giveLast nofun fun _ => .nodesEnd
    · exact keeps_none _
  | flatEntry =>
    split <;> try cases ‹Expectation.flatEntry = _›
    · exact keeps_none _
    · exact (keeps_nodeUnless c _ _ .flatEntry true false).mono fun _ => .oneMore
    · exact keeps_giveLast nofun fun _ => .nodesEnd
  | key =>
    split <;> try cases ‹Expectation.key = _›
    · exact keeps_none _
    · exact (keeps_nodeUnless c _ _ .value true true).mono fun _ => .pairMore
    · exact keeps_giveLast nofun fun _ => .pairsEnd
    · exact keeps_none _
  | value =>
    split <;> try cases ‹Expectation.value = _›
    · exact keeps_none _
    · exact keeps_nodeUnless c _ _ .key true true
    · exact keeps_give nofun fun _ => .leaf
  | flowEntry first =>
    split <;> try cases ‹Expectation.flowEntry _ = _›
    · exact keeps_none _
    · exact keeps_flowEntry c _
    · exact keeps_flowEntry c _
    · exact keeps_giveLast nofun fun _ => .nodesEnd
    · exact keeps_none _
  | pairKey =>
    split <;> try cases ‹Expectation.pairKey = _›
    · exact keeps_none _
    · split
      · exact keeps_give nofun fun _ => .leaf
      · have h := keeps_node { c with later := .pairValue :: c.later } false false
        rwa [promises_cons] at h
  | pairValue =>
    split <;> try cases ‹Expectation.pairValue = _›
    · exact keeps_none _
    · exact keeps_nodeUnless c _ _ .pairEnd false false
    · exact keeps_give nofun fun _ => .leaf
  | pairEnd =>
    split <;> try cases ‹Expectation.pairEnd = _›
    · exact keeps_none _
    · exact keeps_give nofun fun _ => .pairsEnd
  | flowKey first =>
    split <;> try cases ‹Expectation.flowKey _ = _›
    · exact keeps_none _
    · exact keeps_flowKey c _
    · exact keeps_flowKey c _
    · exact keeps_giveLast nofun fun _ => .pairsEnd
    · exact keeps_none _
  | flowValue =>
    split <;> try cases ‹Expectation.flowValue = _›
    · exact keeps_none _
    · exact keeps_nodeUnless c _ _ (.flowKey false) false false
    · exact keeps_give nofun fun _ => .leaf
  | noFlowValue =>
    split <;> try cases ‹Expectation.noFlowValue = _›
    · exact keeps_none _
    · exact keeps_give nofun fun _ => .leaf

/-! ### Whole documents -/

theorem eq_documentEnd_iff {e : Event} {c' : Cursor} (h : c.next = some (e, c')) :
    e = .documentEnd ↔ c.expects = .documentEnd := by
  constructor
  · rintro rfl
    by_contra hc
    exact (keeps_next c hc _ _ h).1 rfl
  · intro hc
    unfold next at h
    rw [hc] at h
    split at h <;> try cases ‹Expectation.documentEnd = _›
    · cases h
    · cases h
      rfl
    · cases h
      rfl

theorem events_succ {e : Event} {c' : Cursor} (h : c.next = some (e, c'))
    (he : e ≠ .documentEnd) (most : Nat) :
    c.events (most + 1) = (e :: (c'.events most).1, (c'.events most).2) := by
  rw [events, h]
  cases e with
  | documentEnd => exact absurd rfl he
  | _ => rfl

/-- Events up to the end of the document are what was promised. -/
theorem fills_events {most : Nat} (hl : (c.events most).1.getLast? = some .documentEnd) :
    ∃ init, (c.events most).1 = init ++ [.documentEnd] ∧ .documentEnd ∉ init ∧
      Fills c.needs ((c.events most).1.map Event.shape) := by
  induction most generalizing c with
  | zero => cases hl
  | succ most ih =>
    cases hn : c.next with
    | none =>
      rw [events, hn] at hl
      cases hl
    | some x =>
      obtain ⟨e, c'⟩ := x
      by_cases he : e = .documentEnd
      · subst he
        refine ⟨[], by rw [events, hn]; rfl, List.not_mem_nil, ?_⟩
        rw [events, hn, needs, (eq_documentEnd_iff hn).mp rfl]
        exact .stop _
      · have hc := mt (eq_documentEnd_iff hn).mpr he
        rw [events_succ hn he] at hl ⊢
        have hne : (c'.events most).1 ≠ [] := fun hnil => by
          rw [hnil] at hl
          exact he (Option.some.inj hl)
        rw [List.getLast?_cons_of_ne_nil hne] at hl
        obtain ⟨init, hinit, hm, hf⟩ := ih hl
        refine ⟨e :: init, congrArg (e :: ·) hinit, ?_, (keeps_next c hc e c' hn).2 _ hf⟩
        exact fun h => (List.mem_cons.mp h).elim (fun h => he h.symm) hm

end Cursor

end FusedKernel.Yaml
