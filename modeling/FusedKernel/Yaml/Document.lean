import FusedKernel.Yaml.Event

/-!
Documents as their entries are read: of each key and value no more than its head, which is the
scalar or the kind of the collection. Aliases stand for the nodes that carry their anchors.
-/
namespace FusedKernel.Yaml

/-- The start of a node. -/
inductive Head
  | scalar (tag : Option Tag) (style : Style) (text : Chars)
  | sequence (tag : Option Tag)
  | mapping (tag : Option Tag)
  deriving DecidableEq, Repr

/-- A node's head, and the number of its anchor if an alias stands for it. -/
structure Ref where
  head : Head
  anchor : Option Nat
  deriving DecidableEq, Repr

/-- Whether an alias stands for a node. -/
def Ref.isAliased (r : Ref) : Bool := r.anchor.isSome

/-- Anchors as they are numbered: a new node gets the count of the names so far. -/
structure Anchors where
  /-- The number under each name. -/
  numbers : List (Chars × Nat) := []
  /-- The heads under numbers, the latest first. -/
  heads : List (Nat × Head) := []

namespace Anchors

/-- Notes the anchor of a node, if it has one. -/
def note (a : Anchors) (name : Option Chars) (head : Head) : Anchors :=
  match name with
  | none => a
  | some name =>
    let number := a.numbers.length
    { numbers := (name, number) :: a.numbers.filter (fun n => n.1 != name)
      heads := (number, head) :: a.heads }

def number? (a : Anchors) (name : Chars) : Option Nat :=
  (a.numbers.find? fun n => n.1 == name).map (·.2)

/-- The head that was noted last under a number. -/
def head? (a : Anchors) (number : Nat) : Option Head :=
  (a.heads.find? fun h => h.1 == number).map (·.2)

end Anchors

/-- A node or the end of one. -/
inductive Part
  | node (head : Head)
  /-- An alias, with the number of its anchor. -/
  | reference (number : Nat)
  | close
  deriving DecidableEq, Repr

/-- The parts from a node on, where the parts after it depend on the anchors. -/
def startNode (rest : Anchors → List Part × Anchors × Bool) (a : Anchors) (anchor : Option Chars)
    (head : Head) : List Part × Anchors × Bool :=
  let (ps, r) := rest (a.note anchor head)
  (.node head :: ps, r)

/-- The parts of a document up to the first unknown alias, if there is one: the parts, the anchors,
and whether all aliases are known. -/
def parts : List Event → Anchors → List Part × Anchors × Bool
  | [], a => ([], a, true)
  | e :: es, a =>
    match e with
    | .reference name =>
      match a.number? name with
      | none => ([], a, false)
      | some number =>
        let (ps, r) := parts es a
        (.reference number :: ps, r)
    | .scalar anchor tag style text => startNode (parts es) a anchor (.scalar tag style text)
    | .sequenceStart anchor tag => startNode (parts es) a anchor (.sequence tag)
    | .mappingStart anchor tag => startNode (parts es) a anchor (.mapping tag)
    | .sequenceEnd | .mappingEnd =>
      let (ps, r) := parts es a
      (.close :: ps, r)
    | .documentEnd => ([], a, true)

namespace Part

/-- The head that a part stands for, if it starts a node. -/
def ref? (a : Anchors) : Part → Option Ref
  | node head => some ⟨head, none⟩
  | reference number => (a.head? number).map fun head => ⟨head, some number⟩
  | close => none

/-- How much deeper collections nest after a part. -/
def opens : Part → Bool
  | node (.sequence _) | node (.mapping _) => true
  | _ => false

/-- Skips a node, given how many collections are open in it: the parts after it, or nothing if they
end before it does. -/
def skip : Nat → List Part → Option (List Part)
  | _, [] => none
  | depth, p :: ps =>
    let depth := if p.opens then depth + 1 else if p == close then depth - 1 else depth
    if depth = 0 then some ps else skip depth ps

end Part

/-- An entry of a mapping, as far as it is there. -/
inductive Item
  /-- A pair of which the value's head may be missing. -/
  | pair (key : Ref) (value : Option Ref)
  /-- The parts end here, before the mapping does. -/
  | cut
  deriving DecidableEq, Repr

/-- The entries of a mapping from its first key on, at most as many as given. -/
def items (a : Anchors) : Nat → List Part → List Item
  | 0, _ => [.cut]
  | most + 1, ps =>
    match ps with
    | [] => [.cut]
    | .close :: _ => []
    | p :: _ =>
      match p.ref? a, Part.skip 0 ps with
      | none, _ => [.cut]
      | some key, none => [.pair key none, .cut]
      | some key, some [] => [.pair key none, .cut]
      | some key, some (v :: vs) =>
        .pair key (v.ref? a) ::
          match Part.skip 0 (v :: vs) with
          | none => [.cut]
          | some ps => items a most ps

/-- A document: the head of its root, and the root's entries if it is a mapping. -/
structure Document where
  root : Option Head
  items : List Item
  /-- Whether the document is free of faults after its root. -/
  whole : Bool

/-- The document of some events. -/
def Document.ofEvents (events : List Event) (whole : Bool) : Document :=
  let (ps, a, known) := parts events {}
  match ps with
  | .node head :: rest => ⟨some head, Yaml.items a (rest.length + 1) rest, whole && known⟩
  | _ => ⟨none, [], false⟩

end FusedKernel.Yaml
