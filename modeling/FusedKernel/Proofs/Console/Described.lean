import FusedKernel.Console.Line
import FusedKernel.Proofs.Console.Notice
import FusedKernel.Proofs.Text.Quoted

/-! What is stored of a text that is recorded through its description. A text describes itself in
quotes, with escapes; the quotes at the two ends are taken off again, the escapes stay. An operator
describes itself by its symbol, without quotes. -/
namespace FusedKernel.Console

/-- The keys of the fields that store texts. -/
def textKeys : List String := ["event", "name", "op1", "op2"]

namespace Shown

/-- The text that is stored under a key. -/
def textAt? (s : Shown) : String → Option String
  | "event" => s.event
  | "name" => s.name
  | "op1" => s.op1
  | "op2" => s.op2
  | _ => none

variable (s : Shown) {key : String}

theorem textAt?_putText (h : key ∈ textKeys) (t : String) :
    (s.putText key t).textAt? key = some t := by
  simp only [textKeys, List.mem_cons, List.not_mem_nil, or_false] at h
  obtain rfl | rfl | rfl | rfl := h <;> rfl

theorem textAt?_put_text (h : key ∈ textKeys) (t : String) :
    (s.put ⟨key, .text t⟩).textAt? key = some t :=
  s.textAt?_putText h t

theorem textAt?_put_described (h : key ∈ textKeys) (description : String) :
    (s.put ⟨key, .described description⟩).textAt? key = some (unquoted description) :=
  s.textAt?_putText h (unquoted description)

theorem unquoted_quoted_eq_iff {t : String} :
    unquoted (Text.quoted t) = t ↔ ∀ c ∈ t.toList, Text.escape c = [c] := by
  rw [← String.toList_inj, unquoted, Text.quoted, String.toList_ofList, String.toList_ofList,
    Text.trimBy_quotes_eq_self_iff]

end Shown

/-- A field stores the same of a text that is recorded as such and of one that is recorded through
its description exactly if the description has no escapes: no character of the text is a quote, a
backslash, a control, unprintable or an extension of the one before it. This holds whatever was
stored before, and also where the text starts or ends with quotes, of which more are taken off than
the description puts around it. An operator that is recorded through its description is stored as
its symbol. -/
theorem described_eq_text_iff (s : Shown) {key : String} (h : key ∈ textKeys) (t : String)
    (op : Operator) :
    ((s.put ⟨key, .described (Text.quoted t)⟩).textAt? key = (s.put ⟨key, .text t⟩).textAt? key ↔
      ∀ c ∈ t.toList, Text.escape c = [c]) ∧
    ((∀ c ∈ t.toList, Text.escape c = [c]) ↔ ∀ c ∈ t.toList, Text.IsLiteral c) ∧
    (s.put ⟨key, .text t⟩).textAt? key = some t ∧
    (s.put ⟨key, .described op.symbol⟩).textAt? key = some op.symbol := by
  refine ⟨?_, forall₂_congr fun c _ => Text.escape_eq_self_iff, s.textAt?_put_text h t, ?_⟩
  · rw [s.textAt?_put_described h, s.textAt?_put_text h, Option.some_inj,
      Shown.unquoted_quoted_eq_iff]
  · rw [s.textAt?_put_described h, unquoted_symbol]

/-- Of a lone quote, its backslash is stored: a text of the same length, but another one. -/
theorem described_eq_text_iff_quote :
    let s : Shown := { name := some "k" }
    "name" ∈ textKeys ∧
    (s.put ⟨"name", .described (Text.quoted "\"")⟩).textAt? "name" = some "\\" ∧
    ¬(s.put ⟨"name", .described (Text.quoted "\"")⟩).textAt? "name" =
      (s.put ⟨"name", .text "\""⟩).textAt? "name" ∧
    (s.put ⟨"name", .described "%"⟩).textAt? "name" = some "%" := by
  intro s
  have hkey : "name" ∈ textKeys := by decide
  obtain ⟨hiff, -, -, hop⟩ := described_eq_text_iff s hkey "\"" .modular
  exact ⟨hkey, by decide, fun h => absurd (hiff.mp h '"' (by decide)) (by decide), hop⟩

end FusedKernel.Console
