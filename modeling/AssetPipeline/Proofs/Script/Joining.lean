/-
This file says that a script is read line by line, each line on its own. Blanks behind a line do not
change what it says, and so neither does the carriage return that a line end may have. A line feed
between two texts therefore joins their scripts: the commands of the first come first, and those of
the second follow with their lines counted on.
-/

import AssetPipeline.Proofs.Text.Trimming
import AssetPipeline.Script.Command
import Mathlib.Data.List.Infix

namespace AssetPipeline

namespace Text

/-! ### Lines -/

theorem linesFrom_of_not_mem {text : Text} (free : '\n' ∉ text) (current : Text) :
    linesFrom current text = if current ++ text = [] then [] else [current ++ text] := by
  induction text generalizing current with
  | nil =>
    rw [List.append_nil]
    rfl
  | cons head rest inductionHypothesis =>
    rw [List.mem_cons, not_or] at free
    rw [linesFrom, if_neg (Ne.symm free.1), inductionHypothesis free.2, List.append_assoc]
    rfl

/-- A text without line feeds is one line, unless there is nothing in it. -/
theorem lines_of_not_mem {text : Text} (free : '\n' ∉ text) (some : text ≠ []) :
    lines text = [text] := by
  unfold lines
  rw [linesFrom_of_not_mem free, List.nil_append, if_neg some]

end Text

namespace Script

/-! ### Comments -/

/-- No comment starts in the text. -/
def Uncommented (text : Text) : Prop := ¬ slashes <:+: text ∧ '#' ∉ text

instance (text : Text) : Decidable (Uncommented text) :=
  inferInstanceAs (Decidable (_ ∧ _))

/-- Two slashes stand in one of two texts when they do not meet between them. -/
theorem before_slashes_append {first second : Text}
    (apart : first.getLast? = some '/' → second.head? ≠ some '/') :
    Text.before slashes (first ++ second) =
      if slashes <:+: first then Text.before slashes first
      else first ++ Text.before slashes second := by
  induction first with
  | nil => rfl
  | cons head rest inductionHypothesis =>
    have here : slashes.isPrefixOf (head :: (rest ++ second)) =
        slashes.isPrefixOf (head :: rest) := by
      cases rest with
      | nil =>
        cases second with
        | nil => rfl
        | cons next others =>
          have parted : head = '/' → next ≠ '/' := by simpa using apart
          simpa [slashes, List.isPrefixOf] using fun first second => parted first.symm second.symm
      | cons next others => simp [slashes, List.isPrefixOf]
    have later : rest.getLast? = some '/' → second.head? ≠ some '/' := by
      intro ends
      refine apart ?_
      rw [List.getLast?_cons, ends]
      rfl
    rw [List.cons_append, Text.before, Text.before, here, inductionHypothesis later]
    by_cases begins : slashes.isPrefixOf (head :: rest) = true
    · have inside : slashes <:+: head :: rest := (List.isPrefixOf_iff_prefix.mp begins).isInfix
      rw [if_pos begins, if_pos begins, if_pos inside]
    · have same : slashes <:+: head :: rest ↔ slashes <:+: rest := by
        rw [List.infix_cons_iff, ← List.isPrefixOf_iff_prefix, or_iff_right begins]
      rw [if_neg begins, if_neg begins]
      by_cases inside : slashes <:+: rest
      · rw [if_pos inside, if_pos (same.mpr inside)]
      · rw [if_neg inside, if_neg (mt same.mp inside), List.cons_append]

theorem before_slashes_of_absent {text : Text} (absent : ¬ slashes <:+: text) :
    Text.before slashes text = text := by
  have whole := @before_slashes_append text [] nofun
  rwa [List.append_nil, if_neg absent, Text.before, List.append_nil] at whole

/-- A text in which no comment starts is read to its end. -/
theorem withoutComment_append {first second : Text} (plain : Uncommented first)
    (apart : first.getLast? = some '/' → second.head? ≠ some '/') :
    withoutComment (first ++ second) = first ++ withoutComment second := by
  unfold withoutComment
  rw [before_slashes_append apart, if_neg plain.1, List.takeWhile_append_of_pos]
  intro character member
  have differs : character ≠ '#' := fun same => plain.2 (same ▸ member)
  simpa using differs

theorem solid_of_blanks {blanks : Text} (blank : ∀ character ∈ blanks, isBlank character = true)
    {character : Char} (solid : isBlank character = false) : character ∉ blanks := fun member => by
  rw [blank character member] at solid
  cases solid

theorem uncommented_of_blanks {blanks : Text}
    (blank : ∀ character ∈ blanks, isBlank character = true) : Uncommented blanks :=
  ⟨fun inside => solid_of_blanks blank rfl (inside.subset List.mem_cons_self),
    solid_of_blanks blank rfl⟩

/-- Blanks behind a line that are part of no comment are trimmed, and others go with the comment. -/
theorem trim_withoutComment_append {blanks : Text}
    (blank : ∀ character ∈ blanks, isBlank character = true) (line : Text) :
    (withoutComment (line ++ blanks)).trim = (withoutComment line).trim := by
  have noSlash : '/' ∉ blanks := solid_of_blanks blank rfl
  have noHash : ∀ character ∈ blanks, (character != '#') = true := fun character member => by
    have differs : character ≠ '#' := fun same => solid_of_blanks blank rfl (same ▸ member)
    simpa using differs
  have bare : Text.before slashes blanks = blanks :=
    before_slashes_of_absent (uncommented_of_blanks blank).1
  unfold withoutComment
  rw [before_slashes_append fun _ begins => noSlash (List.mem_of_head? begins), bare]
  split
  · rfl
  · next absent =>
    rw [before_slashes_of_absent absent, List.takeWhile_append]
    split
    · next whole =>
      rw [List.takeWhile_eq_self_iff.mpr noHash, Text.trim_append_of_blank blank,
        (List.takeWhile_prefix _).eq_of_length whole]
    · rfl

/-! ### Commands on lines -/

theorem commandOfLine?_append_of_blank {blanks : Text}
    (blank : ∀ character ∈ blanks, isBlank character = true) (number : Nat) (line : Text) :
    commandOfLine? number (line ++ blanks) = commandOfLine? number line := by
  unfold commandOfLine?
  rw [trim_withoutComment_append blank]

/-- A carriage return at the end of a line does not count. -/
theorem commandOfLine?_dropReturn (number : Nat) (line : Text) :
    commandOfLine? number (Text.dropReturn line) = commandOfLine? number line := by
  unfold Text.dropReturn
  split
  · next ends =>
    conv_rhs => rw [← List.dropLast_append_getLast? '\r' ends]
    exact (commandOfLine?_append_of_blank (by simp [isBlank]) number _).symm
  · rfl

theorem commandOfLine?_nil (number : Nat) : commandOfLine? number [] = none := rfl

end Script

/-- The command, written so many lines further down. -/
def Command.raised (lines : Nat) (command : Command) : Command :=
  { command with line := command.line + lines }

namespace Script

theorem commandOfLine?_add (number lines : Nat) (line : Text) :
    commandOfLine? (number + lines) line =
      (commandOfLine? number line).map (Command.raised lines) := by
  unfold commandOfLine?
  split <;> rfl

theorem ofLines_add (number lines : Nat) (texts : List Text) :
    ofLines (number + lines) texts = (ofLines number texts).map (Command.raised lines) := by
  induction texts generalizing number with
  | nil => rfl
  | cons line rest inductionHypothesis =>
    rw [ofLines, ofLines, List.map_append, commandOfLine?_add, ← inductionHypothesis,
      Nat.add_right_comm]
    cases commandOfLine? number line <;> rfl

/-- The first text ends with a line of its own, which a line feed cannot change. -/
theorem ofLines_linesFrom_append (number : Nat) (current first second : Text) :
    ofLines number (Text.linesFrom current (first ++ '\n' :: second)) =
      ofLines number (Text.linesFrom current first) ++
        ofLines (number + first.count '\n' + 1) second.lines := by
  induction first generalizing number current with
  | nil =>
    have cut : Text.linesFrom current ('\n' :: second) = Text.dropReturn current :: second.lines :=
      if_pos rfl
    rw [List.nil_append, cut, ofLines, commandOfLine?_dropReturn, Text.linesFrom]
    split
    · next blank =>
      rw [blank, commandOfLine?_nil]
      rfl
    · rw [ofLines, ofLines, List.append_nil]
      rfl
  | cons head rest inductionHypothesis =>
    rw [List.cons_append, Text.linesFrom, Text.linesFrom]
    by_cases ends : head = '\n'
    · rw [if_pos ends, if_pos ends, ofLines, ofLines, inductionHypothesis, List.append_assoc, ends,
        List.count_cons_self, Nat.add_right_comm number, Nat.add_assoc number]
    · rw [if_neg ends, if_neg ends, inductionHypothesis, List.count_cons_of_ne ends]

/-- The script of a single line. -/
theorem ofText_of_not_mem {line : Text} (free : '\n' ∉ line) :
    ofText line = (commandOfLine? 1 line).toList := by
  unfold ofText
  by_cases nothing : line = []
  · rw [nothing, commandOfLine?_nil]
    rfl
  · rw [Text.lines_of_not_mem free nothing, ofLines, ofLines, List.append_nil]

/-- The script of two texts with a line feed between them. -/
theorem ofText_append_newline (first second : Text) :
    ofText (first ++ '\n' :: second) =
      ofText first ++ (ofText second).map (Command.raised (first.count '\n' + 1)) := by
  unfold ofText
  rw [Text.lines, ofLines_linesFrom_append, Nat.add_assoc, ofLines_add]
  rfl

end Script

end AssetPipeline
