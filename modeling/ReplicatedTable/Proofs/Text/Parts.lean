import Mathlib.Data.List.DropRight
import Mathlib.Data.List.TakeWhile
import ReplicatedTable.Text.Parts

/-!
# Trimming

A trimmed text is empty exactly when the text holds blanks only (`trim_eq_empty_iff`), and trimming it again
leaves it as it is (`trim_trim`).
-/
namespace ReplicatedTable.Text

/-- Trimming at the end is dropping from the right. -/
theorem trimChars_eq (cs : List Char) : trimChars cs = (cs.dropWhile blankChar).rdropWhile blankChar := rfl

theorem trimChars_eq_nil_iff (cs : List Char) : trimChars cs = [] ↔ cs.all blankChar = true := by
  rw [trimChars_eq, List.rdropWhile_eq_nil_iff, ← List.dropWhile_eq_nil_iff, List.dropWhile_idempotent,
    List.dropWhile_eq_nil_iff, List.all_eq_true]

theorem trim_eq_empty_iff (s : String) : trim s = "" ↔ blank s = true := by
  rw [trim, blank, ← trimChars_eq_nil_iff, ← String.toList_inj, String.toList_ofList]
  rfl

theorem trimChars_trimChars (cs : List Char) : trimChars (trimChars cs) = trimChars cs := by
  -- what is left begins like the text without the blanks at its front
  have hfront : (trimChars cs).dropWhile blankChar = trimChars cs := by
    have hbegins : trimChars cs <+: cs.dropWhile blankChar := List.rdropWhile_prefix ..
    refine List.dropWhile_eq_self_iff.mpr fun hlen => ?_
    rw [hbegins.getElem hlen]
    exact List.dropWhile_get_zero_not _ cs (Nat.lt_of_lt_of_le hlen hbegins.length_le)
  rw [trimChars_eq (trimChars cs), hfront, trimChars_eq cs, List.rdropWhile_idempotent]

theorem trim_trim (s : String) : trim (trim s) = trim s := by
  rw [trim, trim, String.toList_ofList, trimChars_trimChars]

end ReplicatedTable.Text
