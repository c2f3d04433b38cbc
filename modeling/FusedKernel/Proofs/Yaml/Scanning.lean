import Mathlib.Tactic.Common
import FusedKernel.Proofs.Text.Lines
import FusedKernel.Yaml.Tokens

/-! Texts of simple lines: a word, a colon, a space and another word. Each line is scanned in three
steps, for its key, its colon and its value, and leaves the scanner at the start of the next line.
-/
namespace FusedKernel.Yaml

open Text (afterLine fromLine)

/-! ### Words -/

/-- Characters of names, without a hyphen at the start. -/
structure IsWord (w : Chars) : Prop where
  start : ∃ c s, w = c :: s ∧ c ≠ '-'
  chars : ∀ c ∈ w, isWordChar c

variable {c d : Char} {w s : Chars} {m : Mark} {indent : Int}

theorem IsWord.exists_cons (hw : IsWord w) :
    ∃ c s, w = c :: s ∧ isWordChar c = true ∧ c ≠ '-' := by
  obtain ⟨c, s, rfl, hc⟩ := hw.start
  exact ⟨c, s, rfl, hw.chars c List.mem_cons_self, hc⟩

theorem beq_of_isWordChar (hc : isWordChar c = true) (hd : isWordChar d = false) :
    (c == d) = false := by
  rw [beq_eq_false_iff_ne]
  rintro rfl
  rw [hc] at hd
  cases hd

theorem isSpace_of_isWordChar (hc : isWordChar c = true) : isSpace c = false := by
  rw [isSpace, beq_of_isWordChar hc (by decide), beq_of_isWordChar hc (by decide)]
  rfl

theorem isBreak_of_isWordChar (hc : isWordChar c = true) : isBreak c = false := by
  simp [isBreak, beq_of_isWordChar hc (d := '\n') (by decide),
    beq_of_isWordChar hc (d := '\r') (by decide), beq_of_isWordChar hc (d := '\u0085') (by decide),
    beq_of_isWordChar hc (d := '\u2028') (by decide),
    beq_of_isWordChar hc (d := '\u2029') (by decide)]

theorem isAllowed_of_isWordChar (hc : isWordChar c = true) : isAllowed c = true := by
  have hrange := Text.printable_of_word hc
  simp [isAllowed, hrange.1, hrange.2]

theorem advance_advance (m : Mark) (s t : Chars) :
    (m.advance s).advance t = m.advance (s ++ t) := by
  have hoctets : octetsOf (s ++ t) = octetsOf s + octetsOf t := by
    induction s with
    | nil => exact (Nat.zero_add _).symm
    | cons c s ih => rw [List.cons_append, octetsOf, ih, octetsOf, Nat.add_assoc]
  simp only [Mark.advance, hoctets, List.length_append, Nat.add_assoc]

theorem plain_cons (hc : isWordChar c = true) (s : Chars) (m : Mark) :
    plain false indent (c :: s) m {} =
      (plain false indent s (m.next c) {}).map (Scanned.prepend [c]) := by
  have hreturn : c ≠ '\r' := by
    rintro rfl
    cases hc
  have hstray : strayColon false (c :: s) = false := by
    unfold strayColon
    split <;> rfl
  have hends : endsPlain false (c :: s) = false := by
    rw [endsPlain, beq_of_isWordChar hc (by decide)]
    rfl
  rw [plain]
  · simp [isSpace_of_isWordChar hc, isBreak_of_isWordChar hc, hstray, hends]
  · exact fun _ he _ => hreturn he

/-- A plain scalar that starts with a word goes on behind it. -/
theorem plain_append (hw : ∀ c ∈ w, isWordChar c) (t : Chars) (m : Mark) :
    plain false indent (w ++ t) m {} =
      (plain false indent t (m.advance w) {}).map (Scanned.prepend w) := by
  induction w generalizing m with
  | nil =>
    have hsame : Scanned.prepend [] = id := rfl
    rw [hsame, Option.map_id]
    rfl
  | cons c w ih =>
    rw [List.cons_append, plain_cons (hw c List.mem_cons_self),
      ih fun c hc => hw c (List.mem_cons_of_mem _ hc), Mark.next, advance_advance, Option.map_map]
    rfl

theorem plain_colon (t : Chars) (m : Mark) :
    plain false indent (':' :: ' ' :: t) m {} = some ⟨[], ':' :: ' ' :: t, m, false⟩ := by
  rw [plain]
  · rfl
  · exact fun _ he _ => absurd he (by decide)

/-- A line end ends a scalar that must be indented, at the end of the text or before a word. -/
theorem plain_lineEnd (hs : ∀ c ∈ s.head?, isWordChar c) (m : Mark) :
    plain false 1 ('\n' :: s) m {} = some ⟨[], s, m.newline ['\n'], true⟩ := by
  have hline : plain false 1 ('\n' :: s) m {} =
      plain false 1 s (m.newline ['\n']) (({} : Gap).addBreak '\n') := by
    rw [plain]
    · rfl
    · exact fun _ he _ => absurd he (by decide)
  rw [hline]
  cases s with
  | nil => rfl
  | cons c s =>
    have hc := hs c rfl
    have hreturn : c ≠ '\r' := by
      rintro rfl
      cases hc
    rw [plain]
    · simp [isSpace_of_isWordChar hc, isBreak_of_isWordChar hc, endsAfterGap, Mark.newline,
        Gap.addBreak, Gap.isEmpty, Gap.breaks]
    · exact fun _ he _ => hreturn he

/-! ### Steps -/

namespace Lexer

theorem skipToToken_of_isWordChar (hc : isWordChar c = true) (flow : Bool) (steps : Nat)
    (keyAllowed : Bool) (s : Chars) (m : Mark) :
    skipToToken flow (steps + 1) keyAllowed (c :: s) m = (keyAllowed, c :: s, m) := by
  have hbreak : lineBreak m (c :: s) = none := by
    have hreturn : c ≠ '\r' := by
      rintro rfl
      cases hc
    rw [lineBreak, isBreak_of_isWordChar hc]
    · rfl
    · exact fun _ he _ => hreturn he
  simp (disch := decide) only [skipToToken, beq_of_isWordChar hc, hbreak, Bool.and_false,
    Bool.false_and, Bool.or_false, Bool.false_eq_true, if_false]

theorem atDocumentMark_cons (hcd : (c == d) = false) (s : Chars) :
    atDocumentMark d (c :: s) = false := by
  rw [atDocumentMark, List.take_succ_cons, List.cons_beq_cons, hcd]
  rfl

/-- What starts with a word is a plain scalar. -/
theorem readToken_of_isWordChar {l : Lexer} (hl : l.rest = c :: s) (hc : isWordChar c = true)
    (hh : c ≠ '-') : l.readToken = l.plainScalar := by
  have hhyphen : (c == '-') = false := beq_eq_false_iff_ne.mpr hh
  have hdashes := atDocumentMark_cons hhyphen s
  have hdots := atDocumentMark_cons (beq_of_isWordChar hc (d := '.') (by decide)) s
  have hstarts : startsPlain l.inFlow (c :: s) = true := by
    simp (disch := decide) only [startsPlain, isFlowIndicator, hhyphen, beq_of_isWordChar hc,
      isSpace_of_isWordChar hc, isBreak_of_isWordChar hc, Bool.or_false, Bool.not_false,
      Bool.false_eq_true, if_false]
  simp (disch := decide) only [readToken, hl, beq_of_isWordChar hc, hhyphen, hdashes, hdots,
    hstarts, Bool.and_false, Bool.false_and, Bool.false_eq_true, if_false, if_true]

variable {l next : Lexer} {opened keyAllowed : Bool} {k v t : Chars} {start : Mark}
  {done : Array Token}

theorem unindent_of_le {column : Int} (h : l.indent ≤ column) : l.unindent column = l := by
  rw [unindent]
  split
  · rfl
  · cases l.outer with
    | nil => rfl
    | cons around rest => rw [unindent.close, if_neg (Int.not_lt.mpr h)]

/-- All candidates are near enough. -/
structure IsFresh (l : Lexer) : Prop where
  near : ∀ k, some k ∈ l.candidates →
    l.mark.line ≤ k.mark.line ∧ l.mark.index ≤ k.mark.index + 1024

theorem mapM_eq_some_self {α : Type} {f : α → Option α} {xs : List α}
    (h : ∀ x ∈ xs, f x = some x) : xs.mapM f = some xs := by
  induction xs with
  | nil => rfl
  | cons x xs ih =>
    rw [List.mapM_cons, h x List.mem_cons_self, ih fun x hx => h x (List.mem_cons_of_mem _ hx)]
    rfl

theorem dropStale_of_isFresh (h : l.IsFresh) : l.dropStale = some l := by
  rw [dropStale, mapM_eq_some_self]
  · rfl
  · rintro (_ | k) hk
    · rfl
    · obtain ⟨hline, hindex⟩ := h.near k hk
      simp [Nat.not_lt.mpr hline, Nat.not_lt.mpr hindex]

/-- Reads a token, and hands out what can get no more marks before it. -/
def step (l : Lexer) : Option Lexer :=
  (l.advanceToken.bind dropStale).map handOut

theorem step_eq (l l' : Lexer)
    (hs : skipToToken l.inFlow (l.rest.length + 1) l.keyAllowed l.rest l.mark =
      (l'.keyAllowed, l'.rest, l'.mark))
    (hl : { l with keyAllowed := l'.keyAllowed, rest := l'.rest, mark := l'.mark } = l')
    (hf : l'.IsFresh) (hi : l'.indent ≤ l'.mark.column) (hr : l'.readToken = some next)
    (hf' : next.IsFresh) : l.step = some next.handOut := by
  have hread : l.advanceToken = some next := by
    simp only [advanceToken, hs, hl, dropStale_of_isFresh hf]
    exact (congrArg readToken (unindent_of_le hi)).trans hr
  rw [step, hread, Option.bind_some, dropStale_of_isFresh hf', Option.map_some]

theorem go_succ (h : l.step = some next) (hn : next.done.back? ≠ some .streamEnd) (most : Nat) :
    tokens.go (most + 1) l = tokens.go most next := by
  obtain ⟨l₂, h₂, rfl⟩ := Option.map_eq_some_iff.mp h
  obtain ⟨l₁, h₁, h₂⟩ := Option.bind_eq_some_iff.mp h₂
  have hend : (l₂.handOut.done.back? == some .streamEnd) = false := beq_eq_false_iff_ne.mpr hn
  simp only [tokens.go, h₁, h₂, hend, Bool.false_eq_true, if_false]

theorem go_last (h : l.step = some next) (hn : next.done.back? = some .streamEnd) (most : Nat) :
    tokens.go (most + 1) l = next.done.toList := by
  obtain ⟨l₂, h₂, rfl⟩ := Option.map_eq_some_iff.mp h
  obtain ⟨l₁, h₁, h₂⟩ := Option.bind_eq_some_iff.mp h₂
  have hend : (l₂.handOut.done.back? == some .streamEnd) = true := beq_iff_eq.mpr hn
  simp only [tokens.go, h₁, h₂, hend, if_true]

/-- With nothing pending: in the outermost mapping, or before it is opened. -/
def between (opened keyAllowed : Bool) (s : Chars) (m : Mark) (done : Array Token) : Lexer :=
  { rest := s, mark := m, keyAllowed, done
    indent := if opened then 0 else -1
    outer := if opened then [-1] else [] }

/-- Behind a word at the start of a line, which can still turn out to be a key. -/
def behindKey (opened : Bool) (k s : Chars) (start : Mark) (done : Array Token) : Lexer :=
  { between opened false s (start.advance k) done with
    candidates := [some ⟨opened, done.size, start⟩], pending := [.scalar .plain k] }

theorem isFresh_between (opened keyAllowed : Bool) (s : Chars) (m : Mark) (done : Array Token) :
    (between opened keyAllowed s m done).IsFresh :=
  ⟨fun k hk => by cases List.mem_singleton.mp hk⟩

theorem isFresh_behindKey (hshort : octetsOf k ≤ 1024) (opened : Bool) (s : Chars)
    (start : Mark) (done : Array Token) : (behindKey opened k s start done).IsFresh :=
  ⟨fun k' hk => by
    cases List.mem_singleton.mp hk
    exact ⟨Nat.le_refl _, Nat.add_le_add_left hshort _⟩⟩

theorem handOut_behindKey (opened : Bool) (k s : Chars) (start : Mark) (done : Array Token) :
    (behindKey opened k s start done).handOut = behindKey opened k s start done := by
  have hmarked : (behindKey opened k s start done).isCandidate done.size = true := by
    simp [isCandidate, behindKey]
  exact if_pos hmarked

theorem indent_le (opened : Bool) (m : Mark) : (if opened then 0 else -1 : Int) ≤ m.column := by
  cases opened with
  | false => exact Int.le_trans (Int.neg_nonpos_of_nonneg Int.one_nonneg) (Int.natCast_nonneg _)
  | true => exact Int.natCast_nonneg _

theorem noteKey_between (opened : Bool) (s : Chars) (hm : start.column = 0) (done : Array Token) :
    (between opened true s start done).noteKey = some { between opened true s start done with
      candidates := [some ⟨opened, done.size, start⟩] } := by
  have hrequired :
      ((between opened true s start done).indent == (start.column : Int)) = opened := by
    rw [hm]
    cases opened <;> rfl
  have hnote : (between opened true s start done).noteKey =
      some { between opened true s start done with candidates := [some
        ⟨(between opened true s start done).indent == (start.column : Int), done.size, start⟩] } :=
    rfl
  rw [hnote, hrequired]

theorem plainScalar_eq {noted : Lexer} (hl : l.noteKey = some noted) {r : Scanned}
    (hr : plain noted.inFlow (noted.indent + 1) noted.rest noted.mark {} = some r) :
    l.plainScalar = some (noted.takeScalar .plain r r.breaks) := by
  simp only [plainScalar, hl, bind, Option.bind_some, hr]
  rfl

theorem step_key (hk : IsWord k) (hshort : octetsOf k ≤ 1024) (hm : start.column = 0) :
    (between opened true (k ++ ':' :: ' ' :: s) start done).step =
      some (behindKey opened k (':' :: ' ' :: s) start done) := by
  obtain ⟨c, r, hcons, hc, hh⟩ := hk.exists_cons
  have hskip : skipToToken false ((k ++ ':' :: ' ' :: s).length + 1) true (k ++ ':' :: ' ' :: s)
      start = (true, k ++ ':' :: ' ' :: s, start) := by
    rw [hcons, List.cons_append, skipToToken_of_isWordChar hc]
  have hplain : ∀ indent, plain false indent (k ++ ':' :: ' ' :: s) start {} =
      some ⟨k, ':' :: ' ' :: s, start.advance k, false⟩ := fun indent => by
    rw [plain_append hk.chars, plain_colon]
    exact congrArg (fun k => some (Scanned.mk k _ _ _)) (List.append_nil k)
  have hread : (between opened true (k ++ ':' :: ' ' :: s) start done).readToken =
      some (behindKey opened k (':' :: ' ' :: s) start done) := by
    rw [readToken_of_isWordChar (by rw [between, hcons]; rfl) hc hh,
      plainScalar_eq (noteKey_between opened _ hm done) (hplain _)]
    rfl
  have hstep : (between opened true (k ++ ':' :: ' ' :: s) start done).step =
      some (behindKey opened k (':' :: ' ' :: s) start done).handOut :=
    step_eq _ (between opened true (k ++ ':' :: ' ' :: s) start done) hskip rfl
      (isFresh_between ..) (indent_le ..) hread (isFresh_behindKey hshort ..)
  rw [hstep, handOut_behindKey]

/-- The tokens of a key, behind the mark of the mapping if that is not opened yet. -/
def keyTokens (opened : Bool) (k : Chars) : List Token :=
  (if opened then [] else [.blockMappingStart]) ++ [.key, .scalar .plain k, .value]

/-- Behind a colon, with the tokens of the key still pending. -/
def behindColon (opened : Bool) (k s : Chars) (m : Mark) (done : Array Token) : Lexer :=
  { between true false s m done with pending := keyTokens opened k }

theorem valueMark_behindKey (opened : Bool) (k s : Chars) (hm : start.column = 0)
    (done : Array Token) :
    (behindKey opened k (':' :: s) start done).valueMark =
      some (behindColon opened k s ((start.advance k).next ':') done) := by
  cases opened <;>
    simp [valueMark, behindKey, behindColon, between, candidate, setCandidate, insert, openAt,
      inFlow, push, advance, keyTokens, Mark.next, hm]

theorem handOut_behindColon (opened : Bool) (k s : Chars) (m : Mark) (done : Array Token) :
    (behindColon opened k s m done).handOut =
      between true false s m (done ++ keyTokens opened k) := by
  cases opened <;>
    simp [handOut, handOut.go, behindColon, between, keyTokens, isCandidate]

theorem step_colon (hshort : octetsOf k ≤ 1024) (hm : start.column = 0) :
    (behindKey opened k (':' :: ' ' :: s) start done).step =
      some (between true false (' ' :: s) ((start.advance k).next ':')
        (done ++ keyTokens opened k)) := by
  have hskip : ∀ steps, skipToToken false (steps + 1) false (':' :: ' ' :: s) (start.advance k) =
      (false, ':' :: ' ' :: s, start.advance k) := fun steps => by
    simp [skipToToken, lineBreak, isBreak, byteOrderMark]
  have hread : (behindKey opened k (':' :: ' ' :: s) start done).readToken =
      (behindKey opened k (':' :: ' ' :: s) start done).valueMark := by
    simp [readToken, behindKey, between, inFlow, atGap, isSpace, atDocumentMark]
  have hstep : (behindKey opened k (':' :: ' ' :: s) start done).step =
      some (behindColon opened k (' ' :: s) ((start.advance k).next ':') done).handOut :=
    step_eq _ (behindKey opened k (':' :: ' ' :: s) start done) (hskip _) rfl
      (isFresh_behindKey hshort ..) (indent_le ..)
      (hread.trans (valueMark_behindKey opened k (' ' :: s) hm done)) ⟨fun k hk => by
        cases List.mem_singleton.mp hk⟩
  rw [hstep, handOut_behindColon]

theorem step_value (hv : IsWord v) {r : Scanned}
    (ht : plain false 1 t ((m.next ' ').advance v) {} = some r) (hr : r.text = []) :
    (between true false (' ' :: (v ++ t)) m done).step =
      some (between true r.breaks r.rest r.mark (done.push (.scalar .plain v))) := by
  obtain ⟨c, w, hcons, hc, hh⟩ := hv.exists_cons
  have hskip : skipToToken false ((' ' :: (v ++ t)).length + 1) false (' ' :: (v ++ t)) m =
      (false, v ++ t, m.next ' ') := by
    have hword : ∀ steps, skipToToken false (steps + 1) false (v ++ t) (m.next ' ') =
        (false, v ++ t, m.next ' ') := fun steps => by
      rw [hcons, List.cons_append, skipToToken_of_isWordChar hc]
    have hspace : ∀ steps, skipToToken false (steps + 1) false (' ' :: (v ++ t)) m =
        skipToToken false steps false (v ++ t) (m.next ' ') := fun steps => by
      simp [skipToToken, byteOrderMark]
    rw [List.length_cons, hspace, hword]
  have hplain : plain false 1 (v ++ t) (m.next ' ') {} = some (r.prepend v) := by
    rw [plain_append hv.chars, ht]
    rfl
  have hread : (between true false (v ++ t) (m.next ' ') done).readToken =
      some ((between true false (v ++ t) (m.next ' ') done).takeScalar .plain (r.prepend v)
        r.breaks) := by
    rw [readToken_of_isWordChar (by rw [between, hcons]; rfl) hc hh]
    exact plainScalar_eq rfl hplain
  have hstep : (between true false (' ' :: (v ++ t)) m done).step =
      some ((between true false (v ++ t) (m.next ' ') done).takeScalar .plain (r.prepend v)
        r.breaks).handOut :=
    step_eq _ (between true false (v ++ t) (m.next ' ') done) hskip rfl (isFresh_between ..)
      (indent_le true _) hread ⟨fun k hk => by cases List.mem_singleton.mp hk⟩
  rw [hstep]
  simp [handOut, handOut.go, takeScalar, push, between, isCandidate, Scanned.prepend, hr]

/-- At the end of the text the mapping is closed. -/
theorem step_end (keyAllowed : Bool) (m : Mark) (done : Array Token) :
    ∃ next, (between true keyAllowed [] m done).step = some next ∧
      next.done = (done.push .blockEnd).push .streamEnd := by
  have hfinish : ∃ l, (between true keyAllowed [] m done).readToken = some l ∧
      l.candidates = [none] ∧ l.done = done ∧ l.pending = [.blockEnd, .streamEnd] :=
    ⟨_, rfl, rfl, rfl, rfl⟩
  obtain ⟨l, hread, hcandidates, hdone, hpending⟩ := hfinish
  refine ⟨l.handOut, step_eq _ (between true keyAllowed [] m done) rfl rfl (isFresh_between ..)
    (indent_le true _) hread ⟨fun k hk => ?_⟩, ?_⟩
  · rw [hcandidates] at hk
    cases List.mem_singleton.mp hk
  · simp [handOut, handOut.go, isCandidate, hcandidates, hdone, hpending]

end Lexer

/-! ### Lines -/

/-- A line of a word as the key and a word as the value. -/
structure Line where
  key : Chars
  value : Chars

namespace Line

def text (x : Line) : Chars := x.key ++ ':' :: ' ' :: x.value

def tokens (x : Line) : List Token :=
  [.key, .scalar .plain x.key, .value, .scalar .plain x.value]

/-- Both are words, and the key is short enough to be one. -/
structure IsSound (x : Line) : Prop where
  key : IsWord x.key
  short : octetsOf x.key ≤ 1024
  value : IsWord x.value

end Line

open Lexer (between keyTokens)

variable {x : Line} {lines : List Line}

/-- A value is read up to the start of the next line, or to the end of the text. -/
theorem exists_plain_afterLine (hl : ∀ x ∈ lines, x.IsSound) (ended : Bool) (m : Mark) :
    ∃ r, plain false 1 (afterLine ended (lines.map Line.text)) m {} = some r ∧ r.text = [] ∧
      r.rest = fromLine ended (lines.map Line.text) ∧
      (lines ≠ [] → r.breaks = true ∧ r.mark.column = 0) := by
  cases lines with
  | nil =>
    cases ended with
    | false => exact ⟨_, rfl, rfl, rfl, fun h => absurd rfl h⟩
    | true =>
      have hnone : ∀ c ∈ ([] : Chars).head?, isWordChar c := by simp
      exact ⟨_, plain_lineEnd hnone m, rfl, rfl, fun h => absurd rfl h⟩
  | cons x lines =>
    obtain ⟨c, s, hkey, hc, -⟩ := (hl x List.mem_cons_self).key.exists_cons
    refine ⟨_, plain_lineEnd ?_ m, rfl, rfl, fun _ => ⟨rfl, rfl⟩⟩
    intro c' hc'
    rw [Line.text, hkey] at hc'
    cases hc'
    exact hc

theorem back?_keyTokens (done : Array Token) (opened : Bool) (k : Chars) :
    (done ++ keyTokens opened k).back? = some .value := by
  rw [← Array.getLast?_toList, Array.toList_appendList, keyTokens, ← List.append_assoc,
    List.getLast?_append]
  rfl

/-- A line is scanned in three steps. -/
theorem exists_go_line (hx : x.IsSound) (hl : ∀ x ∈ lines, x.IsSound) (ended opened : Bool)
    {start : Mark} (hm : start.column = 0) (done : Array Token)
    (hd : done.back? ≠ some .streamEnd) :
    ∃ keyAllowed m, (lines ≠ [] → keyAllowed = true ∧ m.column = 0) ∧ ∀ most,
      tokens.go (most + 3)
        (between opened true (x.text ++ afterLine ended (lines.map Line.text)) start done) =
      tokens.go most (between true keyAllowed (fromLine ended (lines.map Line.text)) m
        ((done ++ keyTokens opened x.key).push (.scalar .plain x.value))) := by
  obtain ⟨r, hr, htext, hrest, hnext⟩ := exists_plain_afterLine hl ended
    ((((start.advance x.key).next ':').next ' ').advance x.value)
  refine ⟨r.breaks, r.mark, hnext, fun most => ?_⟩
  have hline : x.text ++ afterLine ended (lines.map Line.text) =
      x.key ++ ':' :: ' ' :: (x.value ++ afterLine ended (lines.map Line.text)) := by
    simp [Line.text]
  rw [hline, Lexer.go_succ (Lexer.step_key hx.key hx.short hm) hd,
    Lexer.go_succ (Lexer.step_colon hx.short hm) (by rw [between, back?_keyTokens]; simp),
    Lexer.go_succ (Lexer.step_value hx.value hr htext) (by rw [between, Array.back?_push]; simp),
    hrest]

/-- Lines in the outermost mapping are scanned one by one, up to the end of the text. -/
theorem go_lines (hl : ∀ x ∈ lines, x.IsSound) (ended : Bool) {keyAllowed : Bool} {start : Mark}
    (hstart : lines ≠ [] → keyAllowed = true ∧ start.column = 0) {done : Array Token}
    (hd : done.back? ≠ some .streamEnd) {most : Nat} (hmost : 3 * lines.length < most) :
    tokens.go most (between true keyAllowed (fromLine ended (lines.map Line.text)) start done) =
      done.toList ++ lines.flatMap Line.tokens ++ [.blockEnd, .streamEnd] := by
  induction lines generalizing keyAllowed start done most with
  | nil =>
    obtain ⟨most, rfl⟩ := Nat.exists_eq_add_one.mpr hmost
    obtain ⟨next, hstep, hdone⟩ := Lexer.step_end keyAllowed start done
    have hlast : next.done.back? = some .streamEnd := by
      rw [hdone, Array.back?_push]
    rw [List.map_nil, fromLine, Lexer.go_last hstep hlast, hdone]
    simp
  | cons x lines ih =>
    have hl' : ∀ y ∈ lines, y.IsSound := fun y hy => hl y (List.mem_cons_of_mem _ hy)
    obtain ⟨most, rfl⟩ : ∃ n, most = n + 3 := ⟨most - 3, by simp at hmost; omega⟩
    obtain ⟨rfl, hm⟩ := hstart (List.cons_ne_nil _ _)
    obtain ⟨keyAllowed, m, hnext, hgo⟩ := exists_go_line (hl x List.mem_cons_self) hl' ended true
      hm done hd
    rw [List.map_cons, fromLine, hgo, ih hl' hnext (by rw [Array.back?_push]; simp)
      (by simp at hmost; omega)]
    simp [keyTokens, Line.tokens]

theorem isAllowed_fromLine (hl : ∀ y ∈ x :: lines, y.IsSound) (ended : Bool) :
    (fromLine ended ((x :: lines).map Line.text)).all isAllowed = true := by
  have htext : ∀ y ∈ x :: lines, ∀ c ∈ y.text, isAllowed c = true := fun y hy c hc => by
    obtain hc | hc := List.mem_append.mp hc
    · exact isAllowed_of_isWordChar ((hl y hy).key.chars c hc)
    · obtain rfl | hc := List.mem_cons.mp hc
      · rfl
      · obtain rfl | hc := List.mem_cons.mp hc
        · rfl
        · exact isAllowed_of_isWordChar ((hl y hy).value.chars c hc)
  refine List.all_eq_true.mpr fun c hc => ?_
  rw [List.map_cons, fromLine, List.mem_append] at hc
  obtain hc | hc := hc
  · exact htext x List.mem_cons_self c hc
  · obtain rfl | ⟨_, hm, hc⟩ := Text.mem_afterLine hc
    · rfl
    · obtain ⟨y, hy, rfl⟩ := List.mem_map.mp hm
      exact htext y (List.mem_cons_of_mem _ hy) c hc

/-- The tokens of a text of lines, at least one. -/
theorem tokens_fromLine (hl : ∀ y ∈ x :: lines, y.IsSound) (ended : Bool) :
    tokens (fromLine ended ((x :: lines).map Line.text)) =
      .blockMappingStart :: (x :: lines).flatMap Line.tokens ++ [.blockEnd, .streamEnd] := by
  have hl' : ∀ y ∈ lines, y.IsSound := fun y hy => hl y (List.mem_cons_of_mem _ hy)
  obtain ⟨most, hfuel, hmost⟩ : ∃ most,
      2 * (fromLine ended ((x :: lines).map Line.text)).length + 2 = most + 3 ∧
        3 * lines.length < most := by
    have hlength : ∀ y : Line, 2 ≤ y.text.length := fun y => by
      rw [Line.text, List.length_append, List.length_cons, List.length_cons]
      omega
    have hrest := @Text.mul_length_le_afterLine 2 (lines.map Line.text)
      (by simpa using fun y _ => hlength y) ended
    have hfirst := hlength x
    rw [List.length_map] at hrest
    rw [List.map_cons, fromLine, List.length_append]
    exact ⟨_, (Nat.sub_add_cancel (by omega)).symm, by omega⟩
  obtain ⟨keyAllowed, m, hnext, hgo⟩ := @exists_go_line x lines (hl x List.mem_cons_self) hl' ended
    false {} rfl #[] (by simp)
  have hstart : tokens (fromLine ended ((x :: lines).map Line.text)) = tokens.go (most + 3)
      (between false true (x.text ++ afterLine ended (lines.map Line.text)) {} #[]) := by
    rw [tokens, if_pos (isAllowed_fromLine hl ended), hfuel]
    rfl
  rw [hstart, hgo, go_lines hl' ended hnext (by rw [Array.back?_push]; simp) hmost]
  simp [keyTokens, Line.tokens]

end FusedKernel.Yaml
