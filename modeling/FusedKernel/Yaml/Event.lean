import FusedKernel.Yaml.Tokens

/-!
Events: the nodes of a document in the order of the text, collections as a start and an end. They
are read off tokens one by one, with a stack of what is expected after the node at hand. A missing
node is an empty plain scalar.
-/
namespace FusedKernel.Yaml

inductive Event
  /-- An alias, by the name of its anchor. -/
  | reference (name : Chars)
  | scalar (anchor : Option Chars) (tag : Option Tag) (style : Style) (text : Chars)
  | sequenceStart (anchor : Option Chars) (tag : Option Tag)
  | sequenceEnd
  | mappingStart (anchor : Option Chars) (tag : Option Tag)
  | mappingEnd
  | documentEnd
  deriving DecidableEq, Repr

/-- The node that stands where none is written. -/
def Event.missing : Event := .scalar none none .plain []

/-- What can come next. -/
inductive Expectation
  /-- The content after the mark of a document. -/
  | content
  | documentEnd
  /-- An indented node. -/
  | node
  | entry
  /-- An entry of a sequence that is not indented further than the mapping around it. -/
  | flatEntry
  | key
  | value
  | flowEntry (first : Bool)
  /-- The key, the value and the end of a pair that stands in brackets by itself. -/
  | pairKey
  | pairValue
  | pairEnd
  | flowKey (first : Bool)
  | flowValue
  /-- The value of a key without a colon, which is missing. -/
  | noFlowValue
  deriving DecidableEq, Repr

/-- Where the reading of events stands. -/
structure Cursor where
  tokens : List Token
  expects : Expectation
  /-- What is expected after the collections at hand. -/
  later : List Expectation
  /-- The shorthands for the starts of tags. -/
  shorthands : List (Chars × Tag)

namespace Cursor

/-- Expects what comes after the node at hand. -/
def pop (c : Cursor) : Cursor :=
  match c.later with
  | [] => { c with expects := .documentEnd }
  | e :: later => { c with expects := e, later }

/-- Gives an event after which something else is expected. -/
def give (c : Cursor) (event : Event) (tokens : List Token) (expects : Expectation) :
    Option (Event × Cursor) :=
  some (event, { c with tokens, expects })

/-- Gives an event that ends a node. -/
def giveLast (c : Cursor) (event : Event) (tokens : List Token) : Option (Event × Cursor) :=
  some (event, { c with tokens }.pop)

/-- The anchor and the tag before a node, in either order. -/
def properties : List Token → Option Chars × Option (Chars × Tag) × List Token
  | .anchor a :: .tag h s :: ts => (some a, some (h, s), ts)
  | .tag h s :: .anchor a :: ts => (some a, some (h, s), ts)
  | .anchor a :: ts => (some a, none, ts)
  | .tag h s :: ts => (none, some (h, s), ts)
  | ts => (none, none, ts)

/-- A tag with its shorthand written out. Shorthands must be known. -/
def fullTag (shorthands : List (Chars × Tag)) : Chars × Tag → Option Tag
  | ([], suffix) => some suffix
  | (handle, suffix) =>
    (shorthands.find? fun s => s.1 == handle).map fun s => s.2 ++ suffix

/-- Reads a node. In brackets it cannot be an indented collection; only as the key or value of an
indented mapping can it be a sequence that is not indented further. -/
def node (c : Cursor) (block flat : Bool) : Option (Event × Cursor) :=
  match c.tokens with
  | .reference name :: ts => c.giveLast (.reference name) ts
  | ts => do
    let (anchor, written, ts) := properties ts
    let tag ← match written with
      | none => some none
      | some w => (fullTag c.shorthands w).map some
    match ts with
    | [] => none
    | .scalar style text :: ts =>
      c.giveLast (.scalar anchor tag style text) ts
    | .flowSequenceStart :: ts => c.give (.sequenceStart anchor tag) ts (.flowEntry true)
    | .flowMappingStart :: ts => c.give (.mappingStart anchor tag) ts (.flowKey true)
    | t :: ts' =>
      if flat && t == .blockEntry then c.give (.sequenceStart anchor tag) ts .flatEntry
      else if block && t == .blockSequenceStart then c.give (.sequenceStart anchor tag) ts' .entry
      else if block && t == .blockMappingStart then c.give (.mappingStart anchor tag) ts' .key
      else if anchor.isSome || tag.isSome then c.giveLast (.scalar anchor tag .plain []) ts
      else none

/-- Reads a node after some tokens, unless one of those that show it missing comes next. -/
def nodeUnless (c : Cursor) (tokens : List Token) (absent : List Token) (after : Expectation)
    (block flat : Bool) : Option (Event × Cursor) :=
  match tokens with
  | [] => none
  | t :: _ =>
    if absent.contains t then c.give .missing tokens after
    else { c with tokens, later := after :: c.later }.node block flat

/-- Reads a key in braces, or a node that is a key without a value. -/
def flowKey (c : Cursor) : List Token → Option (Event × Cursor)
  | .flowMappingEnd :: ts => c.giveLast .mappingEnd ts
  | .key :: ts => c.nodeUnless ts [.value, .flowEntry, .flowMappingEnd] .flowValue false false
  | [] => none
  | ts => { c with tokens := ts, later := .noFlowValue :: c.later }.node false false

/-- Reads an entry in brackets, or the start of a pair. -/
def flowEntry (c : Cursor) : List Token → Option (Event × Cursor)
  | .flowSequenceEnd :: ts => c.giveLast .sequenceEnd ts
  | .key :: ts => c.give (.mappingStart none none) ts .pairKey
  | [] => none
  | ts => { c with tokens := ts, later := .flowEntry false :: c.later }.node false false

/-- The next event. -/
def next (c : Cursor) : Option (Event × Cursor) :=
  match c.expects, c.tokens with
  | _, [] => none
  | .content, t :: ts =>
    match t with
    | .version _ _ | .shorthand _ _ | .documentStart | .documentEnd | .streamEnd =>
      c.giveLast .missing (t :: ts)
    | _ => c.node true false
  | .documentEnd, .documentEnd :: ts => c.give .documentEnd ts .documentEnd
  | .documentEnd, ts => c.give .documentEnd ts .documentEnd
  | .node, _ => c.node true false
  | .entry, .blockEntry :: ts => c.nodeUnless ts [.blockEntry, .blockEnd] .entry true false
  | .entry, .blockEnd :: ts => c.giveLast .sequenceEnd ts
  | .entry, _ => none
  | .flatEntry, .blockEntry :: ts =>
    c.nodeUnless ts [.blockEntry, .key, .value, .blockEnd] .flatEntry true false
  | .flatEntry, ts => c.giveLast .sequenceEnd ts
  | .key, .key :: ts => c.nodeUnless ts [.key, .value, .blockEnd] .value true true
  | .key, .blockEnd :: ts => c.giveLast .mappingEnd ts
  | .key, _ => none
  | .value, .value :: ts => c.nodeUnless ts [.key, .value, .blockEnd] .key true true
  | .value, ts => c.give .missing ts .key
  | .flowEntry true, ts => c.flowEntry ts
  | .flowEntry false, .flowEntry :: ts => c.flowEntry ts
  | .flowEntry false, .flowSequenceEnd :: ts => c.giveLast .sequenceEnd ts
  | .flowEntry false, _ => none
  | .pairKey, t :: ts =>
    if t == .value || t == .flowEntry || t == .flowSequenceEnd then c.give .missing ts .pairValue
    else { c with later := .pairValue :: c.later }.node false false
  | .pairValue, .value :: ts =>
    c.nodeUnless ts [.flowEntry, .flowSequenceEnd] .pairEnd false false
  | .pairValue, ts => c.give .missing ts .pairEnd
  | .pairEnd, ts => c.give .mappingEnd ts (.flowEntry false)
  | .flowKey true, ts => c.flowKey ts
  | .flowKey false, .flowEntry :: ts => c.flowKey ts
  | .flowKey false, .flowMappingEnd :: ts => c.giveLast .mappingEnd ts
  | .flowKey false, _ => none
  | .flowValue, .value :: ts =>
    c.nodeUnless ts [.flowEntry, .flowMappingEnd] (.flowKey false) false false
  | .flowValue, ts => c.give .missing ts (.flowKey false)
  | .noFlowValue, ts => c.give .missing ts (.flowKey false)

/-- Reads at most a number of events, up to the end of the document or a fault. -/
def events : Nat → Cursor → List Event × List Token
  | 0, _ => ([], [])
  | most + 1, c =>
    match c.next with
    | none => ([], [])
    | some (.documentEnd, c) => ([.documentEnd], c.tokens)
    | some (e, c) =>
      let (es, rest) := events most c
      (e :: es, rest)

end Cursor

/-! ### The start of a document -/

/-- The directives before a document. -/
structure Directives where
  version : Bool := false
  shorthands : List (Chars × Tag) := []

namespace Directives

/-- The shorthands that are known without a directive. -/
def standard : List (Chars × Tag) := [(['!'], Tag.mark), (['!', '!'], Tag.coreStart)]

/-- Reads the directives before a document. There is at most one version, which must be 1.1 or 1.2,
and at most one directive for a shorthand. -/
def read (d : Directives) : List Token → Option (Directives × List Token)
  | .version major minor :: ts =>
    if d.version || major ≠ 1 || !(minor == 1 || minor == 2) then none
    else read { d with version := true } ts
  | .shorthand handle start :: ts =>
    if d.shorthands.any fun s => s.1 == handle then none
    else read { d with shorthands := d.shorthands ++ [(handle, start)] } ts
  | ts => some (d, ts)

end Directives

/-- What a stream holds: nothing, or a document. -/
inductive Stream
  | empty
  /-- The events of the first document, without its end; `whole` says that the document has an end
  and that nothing follows it. -/
  | document (events : List Event) (whole : Bool)
  deriving Repr

namespace Stream

/-- Reads a document whose content is expected in some form. -/
def readDocument (expects : Expectation) (d : Directives) (ts : List Token) : Stream :=
  let c : Cursor := ⟨ts, expects, [], d.shorthands ++ Directives.standard⟩
  let (events, rest) := c.events (4 * ts.length + 8)
  let ended := events.getLast? == some .documentEnd
  let alone := rest.dropWhile (· == .documentEnd) == [.streamEnd]
  .document (if ended then events.dropLast else events) (ended && alone)

/-- The first document of a stream. A document without a mark at its start has no directives. -/
def ofTokens (ts : List Token) : Stream :=
  match ts with
  | [.streamEnd] => .empty
  | t :: _ =>
    match t with
    | .version _ _ | .shorthand _ _ | .documentStart =>
      match Directives.read {} ts with
      | some (d, .documentStart :: ts) => readDocument .content d ts
      | _ => .document [] false
    | _ => readDocument .node {} ts
  | [] => .document [] false

/-- The first document of a text. -/
def ofText (text : Chars) : Stream := ofTokens (tokens text)

end Stream

/-- Whether a text starts with the first key of its document, which has an anchor. That is the
document's first anchor then. -/
def startsWithAnchoredKey (text : Chars) : List Event → Bool
  | .mappingStart none none :: .scalar (some _) _ _ _ :: _ =>
    text.head? == some '&' || text.head? == some '!'
  | _ => false

end FusedKernel.Yaml
