import Mathlib.Data.List.Nodup
import FusedKernel.Proofs.Text.Lines
import FusedKernel.Proofs.Toml.Distinct

/-! Documents of simple lines: a bare key, an equals sign with a space on each side, and a value.
Such a line is read as its pair wherever it stands, and lines with distinct keys make up the root
table, in their order. -/
namespace FusedKernel.Toml

open Text (afterLine fromLine)

/-! ### Values as they are written -/

/-- Some characters write a value, whatever follows them. -/
structure Writes (w : Chars) (v : Value) : Prop where
  read : ∀ tail, simpleValue (w ++ tail) = .read v tail
  start : ∃ c r, w = c :: r ∧ isSpace c = false ∧ c ≠ '[' ∧ c ≠ '\x7b'

theorem writes_boolean (b : Bool) :
    Writes (if b then "true" else "false").toList (.boolean b) := by
  cases b with
  | true => exact ⟨fun _ => rfl, 't', "rue".toList, rfl, by decide, by decide, by decide⟩
  | false => exact ⟨fun _ => rfl, 'f', "alse".toList, rfl, by decide, by decide, by decide⟩

theorem basicText_append {s : Chars} (hs : ∀ c ∈ s, isBasicChar c) (tail : Chars) :
    basicText (s ++ '"' :: tail) = some (s, tail) := by
  induction s with
  | nil =>
    rw [List.nil_append, basicText]
  | cons c s ih =>
    have hc := hs c List.mem_cons_self
    have hquote : c ≠ '"' := by rintro rfl; revert hc; decide
    have hslash : c ≠ '\\' := by rintro rfl; revert hc; decide
    rw [List.cons_append, basicText, if_pos hc, ih fun c hm => hs c (List.mem_cons_of_mem _ hm)]
    · rfl
    · exact fun he => hquote he
    · exact fun he => hslash he

/-- A text between double quotes, if it is not empty and needs no escapes. -/
theorem writes_text {s : Chars} (hne : s ≠ []) (hs : ∀ c ∈ s, isBasicChar c) :
    Writes ('"' :: (s ++ ['"'])) (.text (String.ofList s)) := by
  refine ⟨fun tail => ?_, '"', s ++ ['"'], rfl, by decide, by decide, by decide⟩
  have hquoted : quotedText ('"' :: (s ++ '"' :: tail)) = some (String.ofList s, tail) := by
    rw [quotedText, basicText_append hs]
    · rfl
    · obtain ⟨c, r, rfl⟩ := List.exists_cons_of_ne_nil hne
      intro r' he
      have hquote := hs '"' ((List.cons.inj he).1 ▸ List.mem_cons_self)
      revert hquote
      decide
  have htail : '"' :: (s ++ ['"']) ++ tail = '"' :: (s ++ '"' :: tail) := by simp
  rw [htail, simpleValue, hquoted]
  rfl

theorem Writes.skipSpaces {w : Chars} {v : Value} (hw : Writes w v) (tail : Chars) :
    skipSpaces (w ++ tail) = w ++ tail := by
  obtain ⟨c, r, rfl, hc, -⟩ := hw.start
  exact List.dropWhile_cons_of_neg (by simp [hc])

theorem Writes.value {w : Chars} {v : Value} (hw : Writes w v) (depth : Nat) (tail : Chars) :
    value (depth + 1) (w ++ tail) = .ok (v, tail) := by
  obtain ⟨c, r, rfl, -, hbracket, hbrace⟩ := hw.start
  have hread := hw.read tail
  rw [List.cons_append] at hread ⊢
  rw [Toml.value, hread]
  · rfl
  · exact fun s he => hbracket (List.cons.inj he).1
  · exact fun s he => hbrace (List.cons.inj he).1

/-! ### Keys and lines -/

/-- A key that needs no quotes. -/
structure IsBare (k : Chars) : Prop where
  nonempty : k ≠ []
  chars : ∀ c ∈ k, isBareKeyChar c

theorem IsBare.exists_cons {k : Chars} (hk : IsBare k) :
    ∃ c r, k = c :: r ∧ isBareKeyChar c = true := by
  obtain ⟨c, r, rfl⟩ := List.exists_cons_of_ne_nil hk.nonempty
  exact ⟨c, r, rfl, hk.chars c List.mem_cons_self⟩

theorem ne_of_isBareKeyChar {c d : Char} (hc : isBareKeyChar c = true)
    (hd : isBareKeyChar d = false) : c ≠ d := by
  rintro rfl
  rw [hc] at hd
  cases hd

theorem isBasicChar_of_isBareKeyChar {c : Char} (hc : isBareKeyChar c = true) :
    isBasicChar c = true := by
  have hrange := Text.printable_of_word hc
  simp [isBasicChar, isCommentChar, hrange.1, ne_of_isBareKeyChar hc (d := '\x7f') (by decide),
    ne_of_isBareKeyChar hc (d := '"') (by decide), ne_of_isBareKeyChar hc (d := '\\') (by decide)]

theorem keyPart_append {k : Chars} (hk : IsBare k) (t : Chars) :
    keyPart (k ++ ' ' :: t) = .read (String.ofList k) (' ' :: t) := by
  have htake : (k ++ ' ' :: t).takeWhile isBareKeyChar = k := by
    rw [List.takeWhile_append_of_pos hk.chars]
    exact List.append_nil k
  have hdrop : (k ++ ' ' :: t).dropWhile isBareKeyChar = ' ' :: t := by
    rw [List.dropWhile_append_of_pos hk.chars]
    rfl
  obtain ⟨c, r, hcons, hc⟩ := hk.exists_cons
  have hempty : k.isEmpty = false := by rw [hcons]; rfl
  rw [keyPart]
  · simp only [htake, hdrop, hempty, Bool.false_eq_true, if_false]
  · intro s he
    rw [hcons, List.cons_append] at he
    exact ne_of_isBareKeyChar hc (by decide) (List.cons.inj he).1
  · intro s he
    rw [hcons, List.cons_append] at he
    exact ne_of_isBareKeyChar hc (by decide) (List.cons.inj he).1

theorem IsBare.skipSpaces {k : Chars} (hk : IsBare k) (t : Chars) :
    skipSpaces (k ++ t) = k ++ t := by
  obtain ⟨c, r, rfl, hc⟩ := hk.exists_cons
  have hspace : isSpace c = false := by
    simp [isSpace, ne_of_isBareKeyChar hc (d := ' ') (by decide),
      ne_of_isBareKeyChar hc (d := '\t') (by decide)]
  exact List.dropWhile_cons_of_neg (by simp [hspace])

theorem key_append {k : Chars} (hk : IsBare k) (t : Chars) :
    key (k ++ ' ' :: '=' :: t) = .read ([], String.ofList k) ('=' :: t) := by
  have hparts : ∀ most, keyParts (most + 1) (k ++ ' ' :: '=' :: t) =
      .read [String.ofList k] ('=' :: t) := fun most => by
    rw [keyParts, hk.skipSpaces, keyPart_append hk]
    rfl
  rw [key, hparts]
  rfl

/-- A line that writes a pair. -/
structure Written where
  key : Chars
  value : Chars
  read : Value

namespace Written

def text (x : Written) : Chars := x.key ++ ' ' :: '=' :: ' ' :: x.value

def line (x : Written) : Line := .pair [] (String.ofList x.key) x.read

/-- The key is bare, and the value is written so. -/
structure IsSound (x : Written) : Prop where
  bare : IsBare x.key
  writes : Writes x.value x.read

variable {x : Written}

theorem IsSound.line_append (hx : x.IsSound) (tail : Chars) :
    Toml.line (x.text ++ tail) = .ok (x.line, tail) := by
  have hcons : x.text ++ tail = x.key ++ ' ' :: '=' :: ' ' :: (x.value ++ tail) := by simp [text]
  obtain ⟨c, r, hkey, hc⟩ := hx.bare.exists_cons
  have hbracket : ∀ s, x.text ++ tail ≠ '[' :: s := fun s he => by
    rw [hcons, hkey, List.cons_append] at he
    exact ne_of_isBareKeyChar hc (by decide) (List.cons.inj he).1
  have hassigned : assigned (Toml.value nestingLimit) ('=' :: ' ' :: (x.value ++ tail)) =
      .ok (x.read, tail) := by
    have hspaces : skipSpaces (' ' :: (x.value ++ tail)) = x.value ++ tail :=
      hx.writes.skipSpaces tail
    have hvalue : assigned (Toml.value nestingLimit) ('=' :: ' ' :: (x.value ++ tail)) =
        Toml.value nestingLimit (skipSpaces (' ' :: (x.value ++ tail))) := rfl
    rw [hvalue, hspaces]
    exact hx.writes.value 78 tail
  rw [Toml.line]
  · rw [hcons, key_append hx.bare]
    simp only [Reading.required, bind, Except.bind, hassigned]
    rfl
  · exact fun s he => hbracket _ he
  · exact fun s he => hbracket _ he

theorem IsSound.wholeLine_append (hx : x.IsSound) {tail rest : Chars}
    (ht : lineEnd? tail = some rest) : wholeLine (x.text ++ tail) = .ok (x.line, rest) := by
  rw [wholeLine, hx.line_append]
  simp only [bind, Except.bind, ht]
  rfl

end Written

/-! ### Documents -/

theorem lineEnd?_afterLine (ended : Bool) (lines : List Chars) :
    lineEnd? (afterLine ended lines) = some (fromLine ended lines) := by
  cases lines with
  | nil => cases ended <;> rfl
  | cons l rest => rfl

theorem linesOf_succ {s rest : Chars} {c : Char} {l : Line} (hs : s.head? = some c)
    (hc : isBareKeyChar c = true) (hskip : skipSpaces s = s) (hl : wholeLine s = .ok (l, rest))
    (most : Nat) :
    linesOf (most + 1) s = (l :: (linesOf most rest).1, (linesOf most rest).2) := by
  have hne : ∀ {d : Char} {t : Chars}, isBareKeyChar d = false → s ≠ d :: t := by
    rintro d t hd rfl
    exact ne_of_isBareKeyChar hc hd (Option.some.inj hs).symm
  rw [linesOf, hskip]
  split
  · cases hs
  · exact absurd rfl (hne (by decide))
  · exact absurd rfl (hne (by decide))
  · exact absurd rfl (hne (by decide))
  · rw [hl]

/-- Lines that write pairs are read one by one, up to the end of the text. -/
theorem linesOf_fromLine {lines : List Written} (hl : ∀ x ∈ lines, x.IsSound) (ended : Bool)
    {most : Nat} (hmost : lines.length < most) :
    linesOf most (fromLine ended (lines.map Written.text)) = (lines.map Written.line, none) := by
  induction lines generalizing most with
  | nil =>
    obtain ⟨most, rfl⟩ := Nat.exists_eq_add_one.mpr hmost
    rfl
  | cons x lines ih =>
    obtain ⟨most, rfl⟩ := Nat.exists_eq_add_one.mpr (Nat.zero_lt_of_lt hmost)
    have hx := hl x List.mem_cons_self
    have hrest := ih (fun y hy => hl y (List.mem_cons_of_mem _ hy)) (Nat.lt_of_succ_lt_succ hmost)
    have hline := hx.wholeLine_append (lineEnd?_afterLine ended (lines.map Written.text))
    have hskip : skipSpaces (x.text ++ afterLine ended (lines.map Written.text)) =
        x.text ++ afterLine ended (lines.map Written.text) := by
      rw [Written.text, List.append_assoc]
      exact hx.bare.skipSpaces _
    obtain ⟨c, r, hkey, hc⟩ := hx.bare.exists_cons
    have hhead : (x.text ++ afterLine ended (lines.map Written.text)).head? = some c := by
      rw [Written.text, hkey]
      rfl
    rw [List.map_cons, fromLine, linesOf_succ hhead hc hskip hline, hrest]
    rfl

/-! ### Root tables -/

theorem put_pair {entries : Entries} {key : String} (table : Option (List String)) (value : Value)
    (hk : entries.get? key = none) :
    entries.put .line .header table [] key value = .ok (entries.append key value) := by
  have hupdate : ∀ change : Origin → Entries → Except KeyFault (Entries × Unit),
      Entries.update .line change [] [] .header entries = change .header entries := fun _ => by
    rw [Entries.update]
  rw [Entries.put, hupdate]
  simp only [hk]
  rfl

/-- Lines with distinct keys are put into the root table in their order. -/
theorem foldlM_add {lines : List Written} {current : Entries}
    (hd : (current.map Prod.fst ++ lines.map fun x => String.ofList x.key).Nodup) :
    (lines.map Written.line).foldlM Outline.add { current } =
      .ok { current := current ++ lines.map fun x => (String.ofList x.key, x.read) } := by
  induction lines generalizing current with
  | nil =>
    rw [List.map_nil, List.map_nil, List.append_nil]
    rfl
  | cons x lines ih =>
    have hfree : Entries.get? current (String.ofList x.key) = none := by
      rw [Entries.get?_eq_none_iff]
      intro hm
      exact (List.nodup_append.mp hd).2.2 _ hm _ List.mem_cons_self rfl
    have hadd : ({ current } : Outline).add x.line =
        .ok { current := current ++ [(String.ofList x.key, x.read)] } := by
      rw [Written.line, Outline.add, put_pair _ _ hfree]
      rfl
    have hrest := @ih (current ++ [(String.ofList x.key, x.read)]) (by simpa using hd)
    rw [List.append_assoc] at hrest
    rw [List.map_cons, List.foldlM_cons, hadd]
    exact hrest

theorem ofLines_written {lines : List Written}
    (hd : (lines.map fun x => String.ofList x.key).Nodup) :
    ofLines (lines.map Written.line) = .ok (lines.map fun x => (String.ofList x.key, x.read)) := by
  have hfold := @foldlM_add lines [] hd
  rw [ofLines, hfold]
  rfl

/-- Lines with distinct keys write the pairs of the root table, with a line end after the last or
without. -/
theorem parse_ofLines {lines : List Written} (hl : ∀ x ∈ lines, x.IsSound)
    (hd : (lines.map fun x => String.ofList x.key).Nodup) (ended : Bool) :
    parse (Text.ofLines (lines.map fun x => String.ofList x.text) ended) =
      .ok (lines.map fun x => (String.ofList x.key, x.read)) := by
  cases lines with
  | nil => cases ended <;> cbv
  | cons x rest =>
    have htext : (Text.ofLines ((x :: rest).map fun x => String.ofList x.text) ended).toList =
        fromLine ended ((x :: rest).map Written.text) := by
      have hlines := Text.toList_ofLines x.text (rest.map Written.text) ended
      rw [← List.map_cons, List.map_map] at hlines
      exact hlines
    have hmark : dropMark (fromLine ended ((x :: rest).map Written.text)) =
        fromLine ended ((x :: rest).map Written.text) := by
      obtain ⟨c, r, hkey, hc⟩ := (hl x List.mem_cons_self).bare.exists_cons
      rw [List.map_cons, fromLine, Written.text, hkey, List.cons_append, List.cons_append, dropMark]
      exact fun s he => ne_of_isBareKeyChar hc (by decide) (List.cons.inj he).1
    have hmost :
        (x :: rest).length < (fromLine ended ((x :: rest).map Written.text)).length + 1 := by
      have hrest := @Text.mul_length_le_afterLine 0 (rest.map Written.text)
        (fun _ _ => Nat.zero_le _) ended
      rw [List.length_map] at hrest
      rw [List.map_cons, fromLine, List.length_append, Written.text, List.length_append]
      simp only [List.length_cons]
      omega
    rw [parse]
    simp only [htext, hmark]
    rw [linesOf_fromLine hl ended hmost]
    simp only [ofLines_written hd]
    rfl

end FusedKernel.Toml
