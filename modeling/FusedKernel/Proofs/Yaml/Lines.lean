import FusedKernel.Proofs.Yaml.Pairs
import FusedKernel.Proofs.Yaml.Scanning

/-! Documents of simple lines. Their root is a mapping, and its entries are the pairs of the lines'
words, in the order of the lines. -/
namespace FusedKernel.Yaml

namespace Line

def events (x : Line) : List Event :=
  [.scalar none none .plain x.key, .scalar none none .plain x.value]

def parts (x : Line) : List Part :=
  [.node (.scalar none .plain x.key), .node (.scalar none .plain x.value)]

def pair (x : Line) : Pair :=
  ⟨⟨.scalar none .plain x.key, none⟩, ⟨.scalar none .plain x.value, none⟩⟩

end Line

variable {x : Line} {lines : List Line} {shorthands : List (Chars × Tag)} {most : Nat}

theorem length_flatMap_of_length_eq {α : Type} {f : Line → List α} {n : Nat}
    (h : ∀ x, (f x).length = n) : (lines.flatMap f).length = n * lines.length := by
  simp [List.length_flatMap, h, List.map_const', Nat.mul_comm]

theorem next_key (k : Chars) (ts : List Token) :
    Cursor.next ⟨.key :: .scalar .plain k :: ts, .key, [], shorthands⟩ =
      some (.scalar none none .plain k, ⟨ts, .value, [], shorthands⟩) := rfl

theorem next_value (v : Chars) (ts : List Token) :
    Cursor.next ⟨.value :: .scalar .plain v :: ts, .value, [], shorthands⟩ =
      some (.scalar none none .plain v, ⟨ts, .key, [], shorthands⟩) := rfl

/-- The events of lines in a mapping, up to the end of the document. -/
theorem events_lines (hmost : 2 * lines.length + 1 < most) :
    Cursor.events most
      ⟨lines.flatMap Line.tokens ++ [.blockEnd, .streamEnd], .key, [], shorthands⟩ =
      (lines.flatMap Line.events ++ [.mappingEnd, .documentEnd], [.streamEnd]) := by
  induction lines generalizing most with
  | nil =>
    obtain ⟨most, rfl⟩ : ∃ n, most = n + 2 := ⟨most - 2, by simp at hmost; omega⟩
    rfl
  | cons x lines ih =>
    obtain ⟨most, rfl⟩ : ∃ n, most = n + 2 := ⟨most - 2, by simp at hmost; omega⟩
    have hrest := @ih most (by simp at hmost; omega)
    rw [List.flatMap_cons, Line.tokens, List.append_assoc]
    simp only [List.cons_append, List.nil_append]
    rw [Cursor.events_succ (next_key _ _) (by simp), Cursor.events_succ (next_value _ _) (by simp),
      hrest]
    rfl

theorem next_mapping (ts : List Token) :
    Cursor.next ⟨.blockMappingStart :: ts, .node, [], shorthands⟩ =
      some (.mappingStart none none, ⟨ts, .key, [], shorthands⟩) := rfl

/-- A document is whole if its events go on to its end and no token follows. -/
theorem readDocument_eq {expects : Expectation} {d : Directives} {ts : List Token}
    {events : List Event}
    (h : Cursor.events (4 * ts.length + 8) ⟨ts, expects, [], d.shorthands ++ Directives.standard⟩ =
      (events ++ [.documentEnd], [.streamEnd])) :
    Stream.readDocument expects d ts = .document events true := by
  have hended : ((events ++ [Event.documentEnd]).getLast? == some .documentEnd) = true := by
    rw [List.getLast?_concat]
    rfl
  simp only [Stream.readDocument, h, hended, if_true, List.dropLast_concat]
  rfl

theorem ofTokens_lines (lines : List Line) :
    Stream.ofTokens (.blockMappingStart :: (lines.flatMap Line.tokens ++ [.blockEnd, .streamEnd])) =
      .document (.mappingStart none none :: (lines.flatMap Line.events ++ [.mappingEnd])) true := by
  have hread : Stream.ofTokens
      (.blockMappingStart :: (lines.flatMap Line.tokens ++ [.blockEnd, .streamEnd])) =
      Stream.readDocument .node {}
        (.blockMappingStart :: (lines.flatMap Line.tokens ++ [.blockEnd, .streamEnd])) := rfl
  rw [hread]
  refine readDocument_eq ?_
  rw [Cursor.events_succ (next_mapping _) (by simp), events_lines]
  · simp
  · rw [List.length_cons, List.length_append,
      length_flatMap_of_length_eq (f := Line.tokens) (n := 4) fun _ => rfl]
    omega

theorem parts_lines (lines : List Line) :
    parts (lines.flatMap Line.events ++ [.mappingEnd]) {} =
      (lines.flatMap Line.parts ++ [.close], {}, true) := by
  induction lines with
  | nil =>
    simp [parts]
  | cons x lines ih =>
    rw [List.flatMap_cons, Line.events, List.append_assoc]
    simp only [List.cons_append, List.nil_append]
    rw [parts, startNode, parts, startNode]
    simp [Anchors.note, ih, Line.parts]

theorem items_lines (hmost : lines.length < most) :
    items {} most (lines.flatMap Line.parts ++ [.close]) =
      (lines.map Line.pair).map Pair.item := by
  induction lines generalizing most with
  | nil =>
    obtain ⟨most, rfl⟩ := Nat.exists_eq_add_one.mpr hmost
    rfl
  | cons x lines ih =>
    obtain ⟨most, rfl⟩ := Nat.exists_eq_add_one.mpr (Nat.zero_lt_of_lt hmost)
    have hrest := @ih most (Nat.lt_of_succ_lt_succ hmost)
    exact congrArg (_ :: ·) hrest

theorem ofEvents_lines (lines : List Line) :
    Document.ofEvents (.mappingStart none none :: (lines.flatMap Line.events ++ [.mappingEnd]))
      true = ⟨some (.mapping none), (lines.map Line.pair).map Pair.item, true⟩ := by
  have hparts : parts (.mappingStart none none :: (lines.flatMap Line.events ++ [.mappingEnd])) {} =
      (.node (.mapping none) :: (lines.flatMap Line.parts ++ [.close]), {}, true) := by
    rw [parts, startNode, Anchors.note, parts_lines]
  have hmost : lines.length < (lines.flatMap Line.parts ++ [Part.close]).length + 1 := by
    rw [List.length_append, length_flatMap_of_length_eq (f := Line.parts) (n := 2) fun _ => rfl]
    omega
  rw [Document.ofEvents, hparts]
  exact congrArg (Document.mk _ · _) (items_lines hmost)

/-- A text of lines, at least one, is a document of their pairs. -/
theorem ofText_lines (hl : ∀ y ∈ x :: lines, y.IsSound) (ended : Bool) :
    Stream.ofText (Text.fromLine ended ((x :: lines).map Line.text)) =
      .document (.mappingStart none none :: ((x :: lines).flatMap Line.events ++ [.mappingEnd]))
        true := by
  rw [Stream.ofText, tokens_fromLine hl]
  exact ofTokens_lines (x :: lines)

end FusedKernel.Yaml
