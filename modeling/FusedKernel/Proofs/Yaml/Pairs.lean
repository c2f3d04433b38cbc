import FusedKernel.Proofs.Yaml.Nesting

/-! The entries of a whole document. Its parts nest as its events do, so skipping a node ends at the
node's end, and the entries of the root are pairs of which nothing is missing. All aliases stand for
nodes that are there. -/
namespace FusedKernel.Yaml

/-! ### Skipping -/

def Part.shape : Part → Shape
  | node (.scalar _ _ _) | reference _ => .leaf
  | node (.sequence _) => .sequence
  | node (.mapping _) => .mapping
  | close => .close

/-- The needs within a number of open collections, up to the end of the outermost of them. -/
inductive Within : Nat → List Need → Prop
  | nodesEnd : Within 1 [.nodes]
  | pairsEnd : Within 1 [.pairs]
  | node {depth : Nat} {needs : List Need} (h : Within depth needs) : Within depth (.node :: needs)
  | nodes {depth : Nat} {needs : List Need} (h : Within depth needs) :
    Within (depth + 1) (.nodes :: needs)
  | pairs {depth : Nat} {needs : List Need} (h : Within depth needs) :
    Within (depth + 1) (.pairs :: needs)

theorem Within.depth_pos {depth : Nat} {needs : List Need} (h : Within depth needs) :
    0 < depth := by
  induction h with
  | nodesEnd | pairsEnd => exact Nat.one_pos
  | node _ ih => exact ih
  | nodes | pairs => exact Nat.succ_pos _

/-- What remains after some parts of a document: fewer parts, which fill what they should. -/
structure Remains (needs : List Need) (ps rest : List Part) : Prop where
  fills : Fills needs (rest.map Part.shape ++ [.stop])
  suffix : rest <:+ ps
  shorter : rest.length < ps.length

variable {depth : Nat} {inner outer needs : List Need} {ps rest : List Part} {p : Part}
  {shapes : List Shape}

theorem Remains.cons (h : Remains needs ps rest) : Remains needs (p :: ps) rest :=
  ⟨h.fills, h.suffix.trans (List.suffix_cons p ps), Nat.lt_succ_of_lt h.shorter⟩

theorem remains_cons (h : Fills needs (ps.map Part.shape ++ [.stop])) :
    Remains needs (p :: ps) ps :=
  ⟨h, List.suffix_cons p ps, Nat.lt_succ_self _⟩

theorem exists_part_of_cons {s : Shape} (h : s :: shapes = ps.map Part.shape ++ [.stop])
    (hs : s ≠ .stop) :
    ∃ p ps', ps = p :: ps' ∧ p.shape = s ∧ shapes = ps'.map Part.shape ++ [.stop] := by
  cases ps with
  | nil => exact absurd (List.cons.inj h).1 hs
  | cons p ps => exact ⟨p, ps, rfl, (List.cons.inj h).1.symm, (List.cons.inj h).2⟩

theorem skip_leaf (hp : p.shape = .leaf) (hd : 0 < depth) :
    Part.skip depth (p :: ps) = Part.skip depth ps := by
  obtain (_ | _ | _) | _ | _ := p <;> cases hp <;> simp [Part.skip, Part.opens, Nat.ne_of_gt hd]

theorem skip_opens (hp : p.shape = .sequence ∨ p.shape = .mapping) :
    Part.skip depth (p :: ps) = Part.skip (depth + 1) ps := by
  obtain (_ | _ | _) | _ | _ := p <;> simp [Part.shape] at hp <;> simp [Part.skip, Part.opens]

theorem eq_close (hp : p.shape = .close) : p = .close := by
  obtain (_ | _ | _) | _ | _ := p <;> first | rfl | cases hp

theorem ne_close (hp : p.shape ≠ .close) : p ≠ .close := by
  rintro rfl
  exact hp rfl

/-- The end of a collection ends the skipping if it is that of the outermost one. -/
theorem exists_skip_close (hp : p.shape = .close) {n : Need} (hw : Within depth (n :: inner))
    (hn : n ≠ .node) (h : Fills (inner ++ outer) (ps.map Part.shape ++ [.stop]))
    (ih : ∀ {depth}, Within depth inner →
      ∃ rest, Part.skip depth ps = some rest ∧ Remains outer ps rest) :
    ∃ rest, Part.skip depth (p :: ps) = some rest ∧ Remains outer (p :: ps) rest := by
  obtain rfl := eq_close hp
  cases hw with
  | nodesEnd | pairsEnd => exact ⟨ps, rfl, remains_cons h⟩
  | node => exact absurd rfl hn
  | nodes hw | pairs hw =>
    obtain ⟨rest, hskip, hrest⟩ := ih hw
    have hd := hw.depth_pos
    exact ⟨rest, by rw [← hskip]; simp [Part.skip, Part.opens, Nat.ne_of_gt hd], hrest.cons⟩

/-- From within open collections, skipping ends where the outermost of them does. -/
theorem exists_skip_within (h : Fills needs shapes) (hw : Within depth inner)
    (hn : needs = inner ++ outer) (hs : shapes = ps.map Part.shape ++ [.stop]) :
    ∃ rest, Part.skip depth ps = some rest ∧ Remains outer ps rest := by
  induction h generalizing depth inner ps with
  | stop needs => cases hw <;> cases hn
  | leaf h ih =>
    obtain ⟨p, ps, rfl, hp, hs⟩ := exists_part_of_cons hs nofun
    cases hw with
    | node hw =>
      obtain ⟨rest, hskip, hrest⟩ := ih hw (List.cons.inj hn).2 hs
      exact ⟨rest, (skip_leaf hp hw.depth_pos).trans hskip, hrest.cons⟩
    | _ => cases hn
  | sequence h ih =>
    obtain ⟨p, ps, rfl, hp, hs⟩ := exists_part_of_cons hs nofun
    cases hw with
    | node hw =>
      obtain ⟨rest, hskip, hrest⟩ := ih (.nodes hw) (congrArg _ (List.cons.inj hn).2) hs
      exact ⟨rest, (skip_opens (.inl hp)).trans hskip, hrest.cons⟩
    | _ => cases hn
  | mapping h ih =>
    obtain ⟨p, ps, rfl, hp, hs⟩ := exists_part_of_cons hs nofun
    cases hw with
    | node hw =>
      obtain ⟨rest, hskip, hrest⟩ := ih (.pairs hw) (congrArg _ (List.cons.inj hn).2) hs
      exact ⟨rest, (skip_opens (.inr hp)).trans hskip, hrest.cons⟩
    | _ => cases hn
  | oneMore h ih => exact ih (.node hw) (congrArg _ hn) hs
  | pairMore h ih => exact ih (.node (.node hw)) (congrArg (.node :: .node :: ·) hn) hs
  | nodesEnd h ih =>
    obtain ⟨p, ps, rfl, hp, hs⟩ := exists_part_of_cons hs nofun
    cases inner with
    | nil => cases hw
    | cons n inner =>
      obtain ⟨rfl, rfl⟩ := List.cons.inj hn
      exact exists_skip_close hp hw nofun (hs ▸ h) fun hw => ih hw rfl hs
  | pairsEnd h ih =>
    obtain ⟨p, ps, rfl, hp, hs⟩ := exists_part_of_cons hs nofun
    cases inner with
    | nil => cases hw
    | cons n inner =>
      obtain ⟨rfl, rfl⟩ := List.cons.inj hn
      exact exists_skip_close hp hw nofun (hs ▸ h) fun hw => ih hw rfl hs

/-- Skipping a node ends at the node's end. -/
theorem exists_skip (h : Fills (.node :: needs) (ps.map Part.shape ++ [.stop])) :
    ∃ p ps' rest, ps = p :: ps' ∧ p ≠ .close ∧ Part.skip 0 ps = some rest ∧
      Remains needs ps rest := by
  generalize hs : ps.map Part.shape ++ [.stop] = shapes at h
  cases h with
  | leaf h =>
    obtain ⟨p, ps, rfl, hp, rfl⟩ := exists_part_of_cons hs.symm nofun
    refine ⟨p, ps, ps, rfl, ne_close (by rw [hp]; decide), ?_, remains_cons h⟩
    obtain (_ | _ | _) | _ | _ := p <;> first | rfl | cases hp
  | sequence h =>
    obtain ⟨p, ps, rfl, hp, hs⟩ := exists_part_of_cons hs.symm nofun
    obtain ⟨rest, hskip, hrest⟩ := exists_skip_within h .nodesEnd rfl hs
    exact ⟨p, ps, rest, rfl, ne_close (by rw [hp]; decide), (skip_opens (.inl hp)).trans hskip,
      hrest.cons⟩
  | mapping h =>
    obtain ⟨p, ps, rfl, hp, hs⟩ := exists_part_of_cons hs.symm nofun
    obtain ⟨rest, hskip, hrest⟩ := exists_skip_within h .pairsEnd rfl hs
    exact ⟨p, ps, rest, rfl, ne_close (by rw [hp]; decide), (skip_opens (.inr hp)).trans hskip,
      hrest.cons⟩

/-! ### Aliases -/

namespace Anchors

/-- A number has a head. -/
def Has (a : Anchors) (number : Nat) : Prop := (a.head? number).isSome

/-- All numbers under names have heads. -/
def Complete (a : Anchors) : Prop := ∀ n ∈ a.numbers, a.Has n.2

variable {a : Anchors} {number : Nat}

theorem complete_empty : Complete {} := fun _ h => absurd h List.not_mem_nil

theorem Has.note (h : a.Has number) (name : Option Chars) (head : Head) :
    (a.note name head).Has number := by
  cases name with
  | none => exact h
  | some name =>
    unfold Has head? at h ⊢
    rw [Anchors.note, List.find?_cons]
    split
    · rfl
    · exact h

theorem Complete.note (h : a.Complete) (name : Option Chars) (head : Head) :
    (a.note name head).Complete := by
  cases name with
  | none => exact h
  | some name =>
    intro n hn
    obtain rfl | hn := List.mem_cons.mp hn
    · simp [Has, head?, Anchors.note]
    · exact (h n (List.mem_filter.mp hn).1).note (some name) head

theorem Complete.has_of_number? {name : Chars} (h : a.Complete)
    (hn : a.number? name = some number) : a.Has number := by
  obtain ⟨n, hf, rfl⟩ := Option.map_eq_some_iff.mp hn
  exact h n (List.mem_of_find?_eq_some hf)

end Anchors

/-- Parts nest as the events do that they come from, and their aliases stand for heads. -/
structure Mirrors (es : List Event) (a : Anchors) (read : List Part × Anchors × Bool) : Prop where
  shapes : read.1.map Part.shape = es.map Event.shape
  known : ∀ number, .reference number ∈ read.1 → read.2.1.Has number
  keeps : ∀ number, a.Has number → read.2.1.Has number

theorem mirrors_parts {es : List Event} (hes : .documentEnd ∉ es) {a : Anchors} (ha : a.Complete)
    (hknown : (parts es a).2.2 = true) : Mirrors es a (parts es a) := by
  induction es generalizing a with
  | nil =>
    rw [parts]
    exact ⟨rfl, fun _ h => absurd h List.not_mem_nil, fun _ h => h⟩
  | cons e es ih =>
    obtain ⟨he, hrest⟩ := not_or.mp (mt List.mem_cons.mpr hes)
    have hstart : ∀ {anchor head}, (startNode (parts es) a anchor head).2.2 = true →
        (Part.node head).shape = e.shape →
        Mirrors (e :: es) a (startNode (parts es) a anchor head) := fun {anchor head} hk hs => by
      rw [startNode] at hk ⊢
      have h := ih hrest (ha.note anchor head) hk
      refine ⟨congrArg₂ List.cons hs h.shapes, fun number hm => ?_, fun number hn => ?_⟩
      · obtain he | hm := List.mem_cons.mp hm
        · cases he
        · exact h.known number hm
      · exact h.keeps number (hn.note anchor head)
    cases e with
    | reference name =>
      cases hn : a.number? name with
      | none =>
        rw [parts, hn] at hknown
        cases hknown
      | some number =>
        rw [parts, hn] at hknown ⊢
        have h := ih hrest ha hknown
        refine ⟨congrArg _ h.shapes, fun number' hm => ?_, h.keeps⟩
        obtain he | hm := List.mem_cons.mp hm
        · cases he
          exact h.keeps number (ha.has_of_number? hn)
        · exact h.known number' hm
    | scalar | sequenceStart | mappingStart =>
      rw [parts] at hknown ⊢
      exact hstart hknown rfl
    | sequenceEnd | mappingEnd =>
      rw [parts] at hknown ⊢
      have h := ih hrest ha hknown
      refine ⟨congrArg _ h.shapes, fun number hm => ?_, h.keeps⟩
      obtain he | hm := List.mem_cons.mp hm
      · cases he
      · exact h.known number hm
    | documentEnd => exact absurd rfl he

/-! ### Entries -/

/-- The heads of a key and its value. -/
structure Pair where
  key : Ref
  value : Ref
  deriving DecidableEq, Repr

def Pair.item (p : Pair) : Item := .pair p.key (some p.value)

theorem exists_ref {a : Anchors} (hp : p ≠ .close)
    (hknown : ∀ number, p = .reference number → a.Has number) : ∃ r, p.ref? a = some r := by
  cases p with
  | node head => exact ⟨_, rfl⟩
  | reference number =>
    obtain ⟨head, hh⟩ := Option.isSome_iff_exists.mp (hknown number rfl)
    exact ⟨_, congrArg (Option.map _) hh⟩
  | close => exact absurd rfl hp

/-- The entries of a mapping that is there to its end are pairs. -/
theorem exists_pairs_items {a : Anchors} {most : Nat}
    (h : Fills (.pairs :: needs) (ps.map Part.shape ++ [.stop]))
    (hknown : ∀ number, .reference number ∈ ps → a.Has number) (hmost : ps.length < most) :
    ∃ pairs : List Pair, items a most ps = pairs.map Pair.item := by
  induction most generalizing ps with
  | zero => exact absurd hmost (Nat.not_lt_zero _)
  | succ most ih =>
    generalize hs : ps.map Part.shape ++ [.stop] = shapes at h
    cases h with
    | pairsEnd h =>
      obtain ⟨p, ps, rfl, hp, hs⟩ := exists_part_of_cons hs.symm nofun
      obtain rfl := eq_close hp
      exact ⟨[], rfl⟩
    | pairMore h =>
      subst hs
      obtain ⟨p, ps', values, rfl, hp, hskip, hvalues⟩ := exists_skip h
      obtain ⟨v, vs, rest, rfl, hv, hskip', hrest⟩ := exists_skip hvalues.fills
      have hknown' : ∀ number, .reference number ∈ v :: vs → a.Has number := fun number hm =>
        hknown number (hvalues.suffix.subset hm)
      obtain ⟨key, hkey⟩ := exists_ref hp fun number he =>
        hknown number (he ▸ List.mem_cons_self)
      obtain ⟨value, hvalue⟩ := exists_ref hv fun number he =>
        hknown' number (he ▸ List.mem_cons_self)
      have hlt := hvalues.shorter
      have hlt' := hrest.shorter
      obtain ⟨pairs, hpairs⟩ := ih hrest.fills
        (fun number hm => hknown' number (hrest.suffix.subset hm)) (by omega)
      refine ⟨⟨key, value⟩ :: pairs, ?_⟩
      rw [List.map_cons, ← hpairs, items]
      · simp [hkey, hskip, hvalue, hskip', Pair.item]
      · exact hp

/-! ### Documents -/

/-- The events of a whole document are those of one node. -/
structure IsNode (events : List Event) : Prop where
  endless : .documentEnd ∉ events
  fills : Fills [.node, .stop] (events.map Event.shape ++ [.stop])

theorem isNode_of_readDocument {expects : Expectation} {d : Directives} {ts : List Token}
    {events : List Event} (he : expects.needs = [.node])
    (h : Stream.readDocument expects d ts = .document events true) : IsNode events := by
  rw [Stream.readDocument] at h
  generalize hc : Cursor.mk ts expects [] (d.shorthands ++ Directives.standard) = c at h
  generalize hr : c.events (4 * ts.length + 8) = read at h
  obtain ⟨es, rest⟩ := read
  obtain ⟨hevents, hwhole⟩ := Stream.document.inj h
  obtain ⟨hended, -⟩ := Bool.and_eq_true_iff.mp hwhole
  have hes : es = (c.events (4 * ts.length + 8)).1 := by rw [hr]
  have hl : (c.events (4 * ts.length + 8)).1.getLast? = some .documentEnd := by
    rw [hr]
    exact eq_of_beq hended
  obtain ⟨init, hinit, hm, hf⟩ := Cursor.fills_events hl
  have hneeds : c.needs = [.node, .stop] := by
    rw [← hc, Cursor.needs, he]
    rfl
  rw [if_pos hended, hes, hinit, List.dropLast_concat] at hevents
  subst hevents
  rw [hinit, hneeds, List.map_append] at hf
  exact ⟨hm, hf⟩

theorem isNode_of_ofText {text : Chars} {events : List Event}
    (h : Stream.ofText text = .document events true) : IsNode events := by
  unfold Stream.ofText Stream.ofTokens at h
  split at h
  · cases h
  · split at h
    · split at h
      · exact isNode_of_readDocument rfl h
      · cases h
    · split at h
      · exact isNode_of_readDocument rfl h
      · cases h
    · split at h
      · exact isNode_of_readDocument rfl h
      · cases h
    · exact isNode_of_readDocument rfl h
  · cases h

/-- The entries of a whole document whose root is a mapping are pairs. -/
theorem IsNode.exists_pairs {events : List Event} (h : IsNode events) {tag : Option Tag}
    (hroot : (Document.ofEvents events true).root = some (.mapping tag))
    (hwhole : (Document.ofEvents events true).whole) :
    ∃ pairs : List Pair, (Document.ofEvents events true).items = pairs.map Pair.item := by
  generalize hr : parts events {} = read at *
  obtain ⟨ps, a, known⟩ := read
  rw [Document.ofEvents, hr] at hroot hwhole ⊢
  cases ps with
  | nil => cases hroot
  | cons p rest =>
    cases p with
    | node head =>
      have hhead : head = .mapping tag := Option.some.inj hroot
      subst hhead
      have hknown : known = true := hwhole
      have hm := mirrors_parts h.endless Anchors.complete_empty (by rw [hr]; exact hknown)
      rw [hr] at hm
      have hf := h.fills
      rw [← hm.shapes] at hf
      cases hf with
      | mapping hf =>
        exact exists_pairs_items hf
          (fun number hn => hm.known number (List.mem_cons_of_mem _ hn)) (Nat.lt_succ_self _)
    | reference | close => cases hroot

end FusedKernel.Yaml
