import Mathlib.Data.List.Basic
import FusedKernel.Text.Blank
import FusedKernel.Text.Quoted

/-! What trimming leaves of a quoted text. Quotes are trimmed at both ends, and there may be more
than the two that delimit the text: the escape of a quote ends with one, so that of a last quote
loses it and keeps its backslash. An escape starts with a backslash and is longer than the
character, so only a text without escapes comes out as it was. -/
namespace FusedKernel.Text

/-- The characters of the category Cc. -/
def isControl (c : Char) : Bool := c.toNat < 0x20 || (0x7f ≤ c.toNat && c.toNat < 0xa0)

theorem inRanges_of_getElem? {ranges : Array (Nat × Nat)} {i first last code : Nat}
    (h : ranges[i]? = some (first, last)) (hfirst : first ≤ code) (hlast : code ≤ last) :
    inRanges ranges code :=
  Array.any_eq_true'.mpr ⟨(first, last), Array.mem_of_getElem? h, by simp [hfirst, hlast]⟩

theorem isUnprintable_of_isControl {c : Char} (h : isControl c) : isUnprintable c := by
  have hcode : c.toNat < 0x20 ∨ 0x7f ≤ c.toNat ∧ c.toNat < 0xa0 := by simpa [isControl] using h
  have hrange : inRanges unprintableRanges c.toNat := by
    obtain hlt | ⟨hge, hlt⟩ := hcode
    · have hfirst : unprintableRanges[0]? = some (0x0, 0x1f) := by decide +kernel
      exact inRanges_of_getElem? hfirst (Nat.zero_le _) (by omega)
    · have hsecond : unprintableRanges[1]? = some (0x7f, 0xa0) := by decide +kernel
      exact inRanges_of_getElem? hsecond hge (by omega)
  rw [isUnprintable, if_neg (by simp; omega), hrange, Bool.or_true]

/-- Characters that need no escape between quotes. -/
structure IsLiteral (c : Char) : Prop where
  ne_quote : c ≠ '"'
  ne_backslash : c ≠ '\\'
  not_control : isControl c = false
  printable : isUnprintable c = false
  separate : extendsGrapheme c = false

section
variable {c : Char} {s : List Char}

/-- A character is literal and stands for itself, or it has an escape of two or more characters. -/
theorem escape_cases (c : Char) :
    IsLiteral c ∧ escape c = [c] ∨ ¬IsLiteral c ∧ ∃ d rest, escape c = '\\' :: d :: rest := by
  unfold escape
  split
  case h_1 | h_2 | h_3 | h_4 =>
    exact .inr ⟨fun h => absurd h.not_control (by decide), _, _, rfl⟩
  case h_5 => exact .inr ⟨fun h => h.ne_quote rfl, _, _, rfl⟩
  case h_6 => exact .inr ⟨fun h => h.ne_backslash rfl, _, _, rfl⟩
  case h_7 hquote hbackslash =>
    split
    next hc => exact .inr ⟨fun h => by simp [h.separate, h.printable] at hc, _, _, rfl⟩
    next hc =>
      obtain ⟨hseparate, hprintable⟩ : extendsGrapheme c = false ∧ isUnprintable c = false := by
        simpa using hc
      have hcontrol : isControl c = false :=
        Bool.eq_false_iff.mpr fun h => by simp [isUnprintable_of_isControl h] at hprintable
      exact .inl ⟨⟨hquote, hbackslash, hcontrol, hprintable, hseparate⟩, rfl⟩

theorem escape_eq_self_iff : escape c = [c] ↔ IsLiteral c := by
  obtain ⟨hc, hself⟩ | ⟨hc, d, rest, hescape⟩ := escape_cases c
  · simp [hc, hself]
  · simp [hc, hescape]

theorem escape_ne_nil (c : Char) : escape c ≠ [] := by
  obtain ⟨-, hself⟩ | ⟨-, d, rest, hescape⟩ := escape_cases c
  · simp [hself]
  · simp [hescape]

/-- No escape starts with a quote, not even that of a quote. -/
theorem ne_quote_of_head?_escape : ∀ d ∈ (escape c).head?, d ≠ '"' := by
  obtain ⟨hc, hself⟩ | ⟨-, d, rest, hescape⟩ := escape_cases c
  · simpa [hself] using hc.ne_quote
  · simp [hescape]

/-- Only the escape of a quote ends with a quote. -/
theorem ne_quote_of_getLast?_escape (hc : c ≠ '"') : ∀ d ∈ (escape c).getLast?, d ≠ '"' := by
  unfold escape
  split
  case h_1 | h_2 | h_3 | h_4 | h_6 => simp
  case h_5 => exact absurd rfl hc
  case h_7 =>
    split
    · rw [List.getLast?_concat]
      simp
    · simpa using hc

/-! ### Texts -/

theorem length_le_escapeAll (s : List Char) : s.length ≤ (escapeAll s).length := by
  induction s with
  | nil => exact Nat.le_refl _
  | cons c s ih =>
    have hc : 0 < (escape c).length := List.length_pos_iff.mpr (escape_ne_nil c)
    rw [escapeAll_cons, List.length_cons, List.length_append]
    omega

/-- A text is its own escaped form only if none of its characters has an escape: nothing makes up
for the length of one. -/
theorem escapeAll_eq_self_iff : escapeAll s = s ↔ ∀ c ∈ s, escape c = [c] := by
  induction s with
  | nil => simp
  | cons c s ih =>
    rw [List.forall_mem_cons, escapeAll_cons, ← ih]
    obtain ⟨-, hself⟩ | ⟨-, d, rest, hescape⟩ := escape_cases c
    · simp [hself]
    · have hlonger : escape c ++ escapeAll s ≠ c :: s := by
        intro h
        have hlength := congrArg List.length h
        have hle := length_le_escapeAll s
        simp only [hescape, List.length_append, List.length_cons] at hlength
        omega
      have hne : escape c ≠ [c] := by simp [hescape]
      exact iff_of_false hlonger fun h => hne h.1

theorem escapeAll_concat (s : List Char) (c : Char) :
    escapeAll (s ++ [c]) = escapeAll s ++ escape c := by
  rw [escapeAll_append, escapeAll_cons, escapeAll_nil, List.append_nil]

theorem ne_quote_of_head?_escapeAll : ∀ d ∈ (escapeAll s).head?, d ≠ '"' := by
  cases s with
  | nil => simp
  | cons c s =>
    rw [escapeAll_cons, List.head?_append_of_ne_nil _ (escape_ne_nil c)]
    exact ne_quote_of_head?_escape

/-! ### Trimming -/

/-- Of a text that does not end with a quote, trimming leaves the escaped form. -/
theorem trimBy_quotes (hc : c ≠ '"') :
    trimBy (· == '"') ('"' :: escapeAll (s ++ [c]) ++ ['"']) = escapeAll (s ++ [c]) := by
  have hlast : ∀ d ∈ (escapeAll (s ++ [c])).getLast?, d ≠ '"' := by
    rw [escapeAll_concat, List.getLast?_append_of_ne_nil _ (escape_ne_nil c)]
    exact ne_quote_of_getLast?_escape hc
  exact trimBy_append_of_ends (l := ['"']) (by simp)
    (fun d hd => beq_false_of_ne (ne_quote_of_head?_escapeAll d hd))
    (fun d hd => beq_false_of_ne (hlast d hd)) (by simp)

/-- Of a text that ends with a quote, trimming leaves the backslash before that quote. -/
theorem trimBy_quotes_quote (s : List Char) :
    trimBy (· == '"') ('"' :: escapeAll (s ++ ['"']) ++ ['"']) = escapeAll s ++ ['\\'] := by
  have hshape : '"' :: escapeAll (s ++ ['"']) ++ ['"'] =
      ['"'] ++ (escapeAll s ++ ['\\']) ++ ['"', '"'] := by
    simp [escapeAll_concat, escape]
  rw [hshape]
  refine trimBy_append_of_ends (by simp) (fun d hd => ?_) (by simp) (by simp)
  rw [List.head?_append, Option.mem_def, Option.or_eq_some_iff] at hd
  obtain hd | ⟨-, hd⟩ := hd
  · exact beq_false_of_ne (ne_quote_of_head?_escapeAll d hd)
  · obtain rfl := Option.some.inj hd
    rfl

/-- Trimming gives a text back exactly if none of its characters has an escape. -/
theorem trimBy_quotes_eq_self_iff :
    trimBy (· == '"') ('"' :: escapeAll s ++ ['"']) = s ↔ ∀ c ∈ s, escape c = [c] := by
  obtain rfl | ⟨t, c, rfl⟩ := s.eq_nil_or_concat'
  · simp [trimBy]
  · by_cases hc : c = '"'
    · -- the text ends with a quote, what trimming leaves does not
      subst hc
      rw [trimBy_quotes_quote]
      refine iff_of_false (fun h => ?_) fun h => ?_
      · exact absurd (List.append_inj' h rfl).2 (by decide)
      · exact absurd (h '"' (by simp)) (by decide)
    · rw [trimBy_quotes hc, escapeAll_eq_self_iff]

end

end FusedKernel.Text
