/-
This file holds the laws of trimming. Blanks at either end of a text are taken off however many
there are, and a text that has none there is left as it is.
-/

import AssetPipeline.Text.Blank
import Mathlib.Data.List.TakeWhile

namespace AssetPipeline.Text

/-- Blanks in front of a text are trimmed. -/
theorem trim_blanks_append {blanks : Text}
    (blank : ∀ character ∈ blanks, isBlank character = true) (text : Text) :
    trim (blanks ++ text) = trim text := by
  unfold trim trimStart
  rw [List.dropWhile_append_of_pos blank]

theorem trimEnd_append_of_blank {blanks : Text}
    (blank : ∀ character ∈ blanks, isBlank character = true) (text : Text) :
    trimEnd (text ++ blanks) = trimEnd text := by
  unfold trimEnd
  rw [List.reverse_append, List.dropWhile_append_of_pos]
  intro character member
  exact blank character (List.mem_reverse.mp member)

/-- Blanks at the end of a text are trimmed. -/
theorem trim_append_of_blank {blanks : Text}
    (blank : ∀ character ∈ blanks, isBlank character = true) (text : Text) :
    trim (text ++ blanks) = trim text := by
  unfold trim trimStart
  rw [List.dropWhile_append]
  split
  · next nothing =>
    rw [List.isEmpty_iff.mp nothing, List.dropWhile_eq_nil_iff.mpr blank]
  · exact trimEnd_append_of_blank blank _

/-- A text that neither begins nor ends with a blank is trimmed already. -/
theorem trim_eq_self {text : Text} (first : ∀ character ∈ text.head?, isBlank character = false)
    (last : ∀ character ∈ text.getLast?, isBlank character = false) : trim text = text := by
  have start : trimStart text = text := by
    cases text with
    | nil => rfl
    | cons head rest =>
      have solid := first head rfl
      exact List.dropWhile_cons_of_neg (by simp [solid])
  unfold trim
  rw [start]
  rcases List.eq_nil_or_concat text with rfl | ⟨front, final, rfl⟩
  · rfl
  · rw [List.concat_eq_append] at last ⊢
    have solid := last final List.getLast?_concat
    unfold trimEnd
    rw [List.reverse_append, List.reverse_singleton, List.singleton_append,
      List.dropWhile_cons_of_neg (by simp [solid]), List.reverse_cons, List.reverse_reverse]

end AssetPipeline.Text
