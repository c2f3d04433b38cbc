import FusedKernel.Toml.Fault
import FusedKernel.Toml.Value

/-!
Tables from the lines of a document. A header opens a table, in which the pairs that follow are put;
it may open a table that was only implied before, but none twice. A dotted key goes through tables
implied by dotted keys, and never extends one that was opened or written otherwise.
-/
namespace FusedKernel.Toml

/-- How keys lead through tables. -/
inductive Way
  /-- The path of a header. -/
  | header
  /-- A dotted key on a line. -/
  | line
  /-- A dotted key in braces. -/
  | braces
  deriving DecidableEq, Repr

/-- The origin of a table that a path implies. -/
def Way.implied : Way → Origin
  | header => .parent
  | line | braces => .dotted

namespace Entries

/-- The fault of a path that enters a table it must not enter, if there is one. The path ends in
the table's key. -/
def entryFault? (way : Way) (origin : Origin) (path : List String) (key : String) :
    Option KeyFault :=
  match way, origin with
  | .braces, .inline | .braces, .header | .line, .header => some (.duplicate key none)
  | _, .inline => some (.notTable path "inline table")
  | _, _ => none

/-- Changes the table at a path, given the path so far. Tables that are missing on the way are
created; of tables under double brackets the last one is entered. -/
def update {α : Type} (way : Way) (change : Origin → Entries → Except KeyFault (Entries × α)) :
    List String → List String → Origin → Entries → Except KeyFault (Entries × α)
  | _, [], origin, entries => change origin entries
  | passed, key :: path, _, entries =>
    let passed := passed ++ [key]
    match entries.get? key with
    | none =>
      (update way change passed path way.implied []).map fun (inner, x) =>
        (entries.append key (.table way.implied inner), x)
    | some (.table origin inner) =>
      match entryFault? way origin passed key with
      | some fault => .error fault
      | none =>
        (update way change passed path origin inner).map fun (inner, x) =>
          (entries.replace key (.table origin inner), x)
    | some (.tables items) =>
      match items.getLast? with
      | some (.table origin inner) =>
        (update way change passed path origin inner).map fun (inner, x) =>
          (entries.replace key (.tables (items.dropLast ++ [.table origin inner])), x)
      | _ => .error (.notTable passed "array")
    | some value => .error (.notTable passed value.kind)

/-- Puts a pair with a dotted key into a table, whose path is given where it is known. The key must
be free, and the table that it goes into must be implied by the key if that has more than one
part. -/
def put (way : Way) (origin : Origin) (table : Option (List String)) (path : List String)
    (key : String) (value : Value) (entries : Entries) : Except KeyFault Entries :=
  let add (origin : Origin) (inner : Entries) : Except KeyFault (Entries × Unit) :=
    if (origin == .dotted) == path.isEmpty then .error (.duplicate key none)
    else
      match inner.get? key with
      | none => .ok (inner.append key value, ())
      | some _ => .error (.duplicate key table)
  (update way add [] path origin entries).map (·.1)

end Entries

/-- The table of the pairs in braces, each with its dotted key. -/
def inlineTable : List (List String × String × Value) → Entries → Except KeyFault Entries
  | [], entries => .ok entries
  | (path, key, value) :: rest, entries => do
    let entries ← entries.put .braces .inline none path key value
    inlineTable rest entries

/-- A line of a document that says something. Keys are split before their last part. -/
inductive Line
  | pair (path : List String) (key : String) (value : Value)
  /-- A header in brackets. -/
  | table (path : List String) (key : String)
  /-- A header in double brackets. -/
  | element (path : List String) (key : String)
  deriving Repr

/-- The table that is open. -/
inductive Section
  | root
  | table (path : List String) (key : String)
  | element (path : List String) (key : String)
  deriving Repr

/-- The path of the open table. -/
def Section.path : Section → List String
  | root => []
  | table path key | element path key => path ++ [key]

/-- A document as far as it is read. -/
structure Outline where
  /-- The document without its open table. -/
  root : Entries := []
  opened : Section := .root
  /-- The entries of the open table. -/
  current : Entries := []

namespace Outline

/-- Changes the table at the path of a header. -/
def atPath {α : Type} (root : Entries) (path : List String)
    (change : Entries → Except KeyFault (Entries × α)) : Except KeyFault (Entries × α) :=
  Entries.update .header (fun _ entries => change entries) [] path .header root

/-- The fault of a header for a key that is taken in the table at a path. -/
def taken (path : List String) (key : String) : KeyFault :=
  .duplicate (writtenKey key) (some path)

/-- The document with its open table. -/
def close (o : Outline) : Except KeyFault Entries :=
  let table : Value := .table .header o.current
  match o.opened with
  | .root => .ok o.current
  | .table path key =>
    (atPath o.root path fun entries =>
      match entries.get? key with
      | none => .ok (entries.append key table, ())
      | some _ => .error (taken path key)).map (·.1)
  | .element path key =>
    (atPath o.root path fun entries =>
      match entries.get? key with
      | none => .ok (entries.append key (.tables [table]), ())
      | some (.tables items) => .ok (entries.replace key (.tables (items ++ [table])), ())
      | some _ => .error (taken path key)).map (·.1)

/-- Opens a table, which may have been implied by headers before. -/
def openTable (o : Outline) (path : List String) (key : String) : Except KeyFault Outline := do
  let root ← o.close
  let (root, current) ← atPath root path fun entries =>
    match entries.get? key with
    | none => .ok (entries, [])
    | some (.table .parent inner) => .ok (entries.remove key, inner)
    | some _ => .error (taken path key)
  return { root := root, opened := .table path key, current := current }

/-- Opens a further table of an array of tables. -/
def openElement (o : Outline) (path : List String) (key : String) : Except KeyFault Outline := do
  let root ← o.close
  let (root, _) ← atPath root path fun entries =>
    match entries.get? key with
    | none => .ok (entries.append key (.tables []), ())
    | some (.tables _) => .ok (entries, ())
    | some _ => .error (taken path key)
  return { root := root, opened := .element path key, current := [] }

/-- Takes a line into account. -/
def add (o : Outline) : Line → Except Fault Outline
  | .pair path key value =>
    match o.current.put .line .header (some o.opened.path) path key value with
    | .ok current => .ok { o with current := current }
    | .error fault => .error (.pair fault)
  | .table path key => (o.openTable path key).mapError .header
  | .element path key => (o.openElement path key).mapError .header

end Outline

/-- The entries of the root table of a document, from its lines. -/
def ofLines (lines : List Line) : Except Fault Entries := do
  let o ← lines.foldlM Outline.add {}
  o.close.mapError .header

end FusedKernel.Toml
