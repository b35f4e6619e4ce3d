/-
This file says that layout does not change a script. A line may be indented, have blanks behind it
and end in a comment, and its line end may have a carriage return. Blanks at the ends of a line are
trimmed, and those in front of a comment too. A comment takes with it what follows, so that it does
not matter what stands in it, or that another had started before. Only a slash right in front of two
that start a comment would be lost, for then the comment would start with that slash.
-/

import AssetPipeline.Proofs.Script.Joining
import AssetPipeline.Proofs.Text.Pieces

namespace AssetPipeline

namespace Script

/-- What may stand behind a text without being part of it: nothing, or a comment that starts with a
character of its own. -/
def Remark (text comment : Text) : Prop :=
  comment = [] ∨ ['#'] <+: comment ∨ slashes <+: comment ∧ text.getLast? ≠ some '/'

instance (text comment : Text) : Decidable (Remark text comment) :=
  inferInstanceAs (Decidable (_ ∨ _ ∨ _ ∧ _))

/-- A line of a script and how it is laid out. -/
structure LaidOut where
  line : Text
  indent : Text
  trail : Text
  comment : Text
  /-- Whether the line end behind it has a carriage return. -/
  returned : Bool
  oneLine : '\n' ∉ line
  indentOneLine : '\n' ∉ indent
  trailOneLine : '\n' ∉ trail
  commentOneLine : '\n' ∉ comment
  indentBlank : ∀ character ∈ indent, isBlank character = true
  trailBlank : ∀ character ∈ trail, isBlank character = true
  remark : Remark (indent ++ line ++ trail) comment

namespace LaidOut

/-- The line with all that stands around it. -/
def text (laid : LaidOut) : Text := laid.indent ++ laid.line ++ laid.trail ++ laid.comment

/-- What stands in front of the line feed of its line end. -/
def ending (laid : LaidOut) : Text := if laid.returned then ['\r'] else []

end LaidOut

/-- The text of lines as they are laid out. The last has no line end. -/
def layout : List LaidOut → Text
  | [] => []
  | [last] => last.text
  | laid :: next :: rest => laid.text ++ laid.ending ++ '\n' :: layout (next :: rest)

/-! ### A line -/

/-- A line reads the same without the comment behind it, also when one has started before. -/
theorem withoutComment_append_remark {text comment : Text} (remark : Remark text comment) :
    withoutComment (text ++ comment) = withoutComment text := by
  unfold withoutComment
  rcases remark with rfl | ⟨rest, rfl⟩ | ⟨⟨rest, rfl⟩, apart⟩
  · rw [List.append_nil]
  · rw [List.singleton_append, before_slashes_append fun _ => by simp]
    split
    · rfl
    · next absent =>
      rw [before_slashes_of_absent absent, List.takeWhile_append]
      split
      · next whole =>
        rw [(List.takeWhile_prefix _).eq_of_length whole, Text.before]
        simp [slashes]
      · rfl
  · rw [before_slashes_append fun ends => absurd ends apart]
    split
    · rfl
    · next absent =>
      have opens : slashes.isPrefixOf (slashes ++ rest) = true :=
        List.isPrefixOf_iff_prefix.mpr (List.prefix_append _ _)
      have nothing : Text.before slashes (slashes ++ rest) = [] := if_pos opens
      rw [before_slashes_of_absent absent, nothing, List.append_nil]

/-- Blanks in front of a line are trimmed, for no comment can start in them. -/
theorem trim_withoutComment_blanks_append {blanks : Text}
    (blank : ∀ character ∈ blanks, isBlank character = true) (line : Text) :
    (withoutComment (blanks ++ line)).trim = (withoutComment line).trim := by
  have noSlash : '/' ∉ blanks := solid_of_blanks blank rfl
  rw [withoutComment_append (uncommented_of_blanks blank)
    fun ends => absurd (List.mem_of_getLast? ends) noSlash, Text.trim_blanks_append blank]

namespace LaidOut

variable (laid : LaidOut)

/-- The command on a line is there in any layout. -/
theorem commandOfLine?_text (number : Nat) :
    commandOfLine? number laid.text = commandOfLine? number laid.line := by
  unfold commandOfLine? text
  rw [withoutComment_append_remark laid.remark, List.append_assoc,
    trim_withoutComment_blanks_append laid.indentBlank,
    trim_withoutComment_append laid.trailBlank]

theorem newline_not_mem_text : '\n' ∉ laid.text := by
  simp [text, laid.oneLine, laid.indentOneLine, laid.trailOneLine, laid.commentOneLine]

theorem newline_not_mem_ending : '\n' ∉ laid.ending := by
  unfold ending
  split <;> simp

theorem commandOfLine?_text_ending (number : Nat) :
    commandOfLine? number (laid.text ++ laid.ending) = commandOfLine? number laid.line := by
  have blank : ∀ character ∈ laid.ending, isBlank character = true := by
    unfold ending
    split <;> simp [isBlank]
  rw [commandOfLine?_append_of_blank blank, commandOfLine?_text]

end LaidOut

/-! ### All lines -/

/-- The script of lines that are laid out is the script of the lines alone, on the same lines. -/
theorem ofText_layout (lines : List LaidOut) :
    ofText (layout lines) = ofText (Text.joinWith '\n' (lines.map LaidOut.line)) := by
  induction lines with
  | nil => rfl
  | cons laid rest inductionHypothesis =>
    cases rest with
    | nil =>
      rw [layout, List.map_singleton, Text.joinWith, ofText_of_not_mem laid.newline_not_mem_text,
        ofText_of_not_mem laid.oneLine, laid.commandOfLine?_text]
    | cons next others =>
      have free : '\n' ∉ laid.text ++ laid.ending := by
        rw [List.mem_append, not_or]
        exact ⟨laid.newline_not_mem_text, laid.newline_not_mem_ending⟩
      rw [layout, List.map_cons, Text.joinWith_cons (by simp), ofText_append_newline,
        ofText_append_newline, inductionHypothesis, ofText_of_not_mem free,
        ofText_of_not_mem laid.oneLine, laid.commandOfLine?_text_ending,
        List.count_eq_zero_of_not_mem free, List.count_eq_zero_of_not_mem laid.oneLine]

/-- A quote that a comment of its own cuts short, a line with nothing on it but its layout, and an
open quote in front of a second comment. -/
def threeLines : List LaidOut := [
  { line := "copy \"a b#c\" d".toList, indent := "\t ".toList, trail := " \r".toList,
    comment := "// \"e\"".toList, returned := true, oneLine := by decide,
    indentOneLine := by decide, trailOneLine := by decide, commentOneLine := by decide,
    indentBlank := List.all_eq_true.mp rfl, trailBlank := List.all_eq_true.mp rfl,
    remark := by decide },
  { line := [], indent := "\u3000".toList, trail := [], comment := "#".toList, returned := false,
    oneLine := by decide, indentOneLine := by decide, trailOneLine := by decide,
    commentOneLine := by decide, indentBlank := List.all_eq_true.mp rfl,
    trailBlank := List.all_eq_true.mp rfl, remark := by decide },
  { line := "zip x/ \"open".toList, indent := [], trail := " ".toList,
    comment := "#//".toList, returned := true, oneLine := by decide,
    indentOneLine := by decide, trailOneLine := by decide, commentOneLine := by decide,
    indentBlank := List.all_eq_true.mp rfl, trailBlank := List.all_eq_true.mp rfl,
    remark := by decide }]

theorem ofText_layout_threeLines : ofText (layout threeLines) = [
    ⟨1, "copy".toList, ["a b".toList]⟩, ⟨3, "zip".toList, ["x/".toList, "open".toList]⟩] :=
  (ofText_layout threeLines).trans (by decide +kernel)

end Script

end AssetPipeline
