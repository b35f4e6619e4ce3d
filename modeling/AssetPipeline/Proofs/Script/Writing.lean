/-
This file writes scripts and says that what was written is read back. Each command goes on a line of
its own, its verb first and then each parameter in double quotes behind a space. A verb must be
solid and a parameter must hold neither a quote nor a line feed, and a comment may start in neither.
Then the script of the text has exactly these verbs and parameters, on the lines from one on.
-/

import AssetPipeline.Proofs.Script.Joining
import AssetPipeline.Proofs.Text.Pieces

namespace AssetPipeline

/-- What a command says, wherever it is written. -/
structure Instruction where
  verb : Text
  parameters : List Text

namespace Instruction

/-- A parameter in quotes, behind a space. -/
def quoted (parameter : Text) : Text := ' ' :: '"' :: (parameter ++ ['"'])

/-- The instruction on a line. -/
def line (instruction : Instruction) : Text :=
  instruction.verb ++ instruction.parameters.flatMap quoted

/-- The command that the instruction is on the line with this number. -/
def command (number : Nat) (instruction : Instruction) : Command where
  line := number
  verb := instruction.verb
  parameters := instruction.parameters

/-- An instruction that can be written. Parameters may be empty, and may hold blanks. -/
structure Writable (instruction : Instruction) : Prop where
  named : instruction.verb ≠ []
  solid : ∀ character ∈ instruction.verb, isBlank character = false
  uncommented : Script.Uncommented instruction.verb
  parameters : ∀ parameter ∈ instruction.parameters,
    '"' ∉ parameter ∧ '\n' ∉ parameter ∧ Script.Uncommented parameter

theorem writable_iff {instruction : Instruction} : instruction.Writable ↔
    instruction.verb ≠ [] ∧ (∀ character ∈ instruction.verb, isBlank character = false) ∧
      Script.Uncommented instruction.verb ∧ ∀ parameter ∈ instruction.parameters,
        '"' ∉ parameter ∧ '\n' ∉ parameter ∧ Script.Uncommented parameter :=
  ⟨fun ⟨named, solid, uncommented, parameters⟩ => ⟨named, solid, uncommented, parameters⟩,
    fun ⟨named, solid, uncommented, parameters⟩ => ⟨named, solid, uncommented, parameters⟩⟩

-- The characters of the verb are gone through, and not all that there are.
instance (instruction : Instruction) : Decidable instruction.Writable :=
  letI : Decidable (∀ character ∈ instruction.verb, isBlank character = false) :=
    List.decidableBAll (isBlank · = false) instruction.verb
  decidable_of_iff' _ writable_iff

end Instruction

/-- A text with one instruction on each line. -/
def Script.written (instructions : List Instruction) : Text :=
  Text.joinWith '\n' (instructions.map Instruction.line)

/-! ### Parameters -/

/-- The parameters of a line begin with a space and a quote and end with a quote. -/
theorem Instruction.ends_of_flatMap_quoted (parameters : List Text) :
    parameters.flatMap quoted = [] ∨
      ∃ inner, parameters.flatMap quoted = ' ' :: '"' :: (inner ++ ['"']) := by
  rcases List.eq_nil_or_concat parameters with rfl | ⟨front, final, rfl⟩
  · exact Or.inl rfl
  · right
    cases front with
    | nil => exact ⟨final, by simp [quoted]⟩
    | cons first others =>
      exact ⟨first ++ '"' :: (others.flatMap quoted ++ ' ' :: '"' :: final), by simp [quoted]⟩

namespace Parameters

open Instruction (quoted ends_of_flatMap_quoted)

/-- A span in quotes is one parameter. -/
theorem scan_inQuotes {span : Text} (unquoted : '"' ∉ span) (word rest : Text) :
    scan (.inQuotes word) (span ++ '"' :: rest) = (word ++ span) :: scan .between rest := by
  induction span generalizing word with
  | nil =>
    rw [List.append_nil]
    exact if_pos rfl
  | cons head others inductionHypothesis =>
    rw [List.mem_cons, not_or] at unquoted
    rw [List.cons_append, scan, if_neg (Ne.symm unquoted.1), inductionHypothesis unquoted.2,
      List.append_assoc]
    rfl

theorem scan_flatMap_quoted {parameters : List Text}
    (unquoted : ∀ parameter ∈ parameters, '"' ∉ parameter) :
    scan .between (parameters.flatMap quoted) = parameters := by
  induction parameters with
  | nil => rfl
  | cons parameter rest inductionHypothesis =>
    have opened : scan .between (quoted parameter ++ rest.flatMap quoted) =
        scan (.inQuotes []) (parameter ++ '"' :: rest.flatMap quoted) := by
      simp [quoted, scan, isBlank]
    rw [List.flatMap_cons, opened, scan_inQuotes (unquoted parameter List.mem_cons_self),
      List.nil_append,
      inductionHypothesis fun other member => unquoted other (List.mem_cons_of_mem _ member)]

/-- Parameters in quotes are read back, whatever blanks they hold or end with. -/
theorem split_flatMap_quoted {parameters : List Text}
    (unquoted : ∀ parameter ∈ parameters, '"' ∉ parameter) :
    split ((parameters.flatMap quoted).drop 1) = parameters := by
  have scanned := scan_flatMap_quoted unquoted
  rcases ends_of_flatMap_quoted parameters with none | ⟨inner, some⟩
  · rw [none] at scanned ⊢
    exact scanned
  · have trimmed : Text.trim ('"' :: (inner ++ ['"'])) = '"' :: (inner ++ ['"']) := by
      refine Text.trim_eq_self (by simp [isBlank]) fun character last => ?_
      rw [← List.cons_append, List.getLast?_concat] at last
      obtain rfl := Option.some.inj last
      rfl
    rw [some] at scanned ⊢
    unfold split
    rw [List.drop_one, List.tail_cons, trimmed]
    exact scanned

end Parameters

/-! ### Lines -/

namespace Instruction

variable {instruction : Instruction} {parameters : List Text}

theorem withoutComment_flatMap_quoted
    (uncommented : ∀ parameter ∈ parameters, Script.Uncommented parameter) :
    Script.withoutComment (parameters.flatMap quoted) = parameters.flatMap quoted := by
  induction parameters with
  | nil => rfl
  | cons parameter rest inductionHypothesis =>
    have opening : Script.Uncommented [' ', '"'] := by decide
    have closing : Script.Uncommented ['"'] := by decide
    have split : (parameter :: rest).flatMap quoted =
        [' ', '"'] ++ (parameter ++ (['"'] ++ rest.flatMap quoted)) := by
      simp [quoted]
    rw [split, Script.withoutComment_append opening (by simp),
      Script.withoutComment_append (uncommented parameter List.mem_cons_self) (by simp),
      Script.withoutComment_append closing (by simp),
      inductionHypothesis fun other member => uncommented other (List.mem_cons_of_mem _ member)]

namespace Writable

variable (writable : instruction.Writable)

include writable

theorem withoutComment_line : Script.withoutComment instruction.line = instruction.line := by
  unfold line
  rw [Script.withoutComment_append writable.uncommented, withoutComment_flatMap_quoted
    fun parameter member => (writable.parameters parameter member).2.2]
  rcases ends_of_flatMap_quoted instruction.parameters with none | ⟨inner, some⟩
  · simp [none]
  · simp [some]

theorem trim_line : instruction.line.trim = instruction.line := by
  unfold line
  refine Text.trim_eq_self ?_ ?_
  · intro character first
    rw [List.head?_append_of_ne_nil _ writable.named] at first
    exact writable.solid character (List.mem_of_head? first)
  · intro character last
    rcases ends_of_flatMap_quoted instruction.parameters with none | ⟨inner, some⟩
    · rw [none, List.append_nil] at last
      exact writable.solid character (List.mem_of_getLast? last)
    · rw [some, ← List.cons_append, ← List.cons_append, ← List.append_assoc,
        List.getLast?_concat] at last
      obtain rfl := Option.some.inj last
      rfl

theorem commandOfLine?_line (number : Nat) :
    Script.commandOfLine? number instruction.line = some (instruction.command number) := by
  have verb : ∀ character ∈ instruction.verb, (character != ' ') = true := by
    intro character member
    have differs : character ≠ ' ' := fun same => by
      have solid := writable.solid character member
      rw [same] at solid
      cases solid
    simpa using differs
  have ends := ends_of_flatMap_quoted instruction.parameters
  have takes : instruction.line.takeWhile (· != ' ') = instruction.verb := by
    unfold line
    rw [List.takeWhile_append_of_pos verb]
    rcases ends with none | ⟨inner, some⟩
    · rw [none, List.takeWhile_nil, List.append_nil]
    · rw [some, List.takeWhile_cons_of_neg (by decide), List.append_nil]
  have leaves :
      instruction.line.dropWhile (· != ' ') = instruction.parameters.flatMap quoted := by
    unfold line
    rw [List.dropWhile_append_of_pos verb]
    rcases ends with none | ⟨inner, some⟩
    · rw [none, List.dropWhile_nil]
    · rw [some, List.dropWhile_cons_of_neg (by decide)]
  unfold Script.commandOfLine?
  rw [writable.withoutComment_line, writable.trim_line]
  split
  · next nothing => exact absurd (List.append_eq_nil_iff.mp nothing).1 writable.named
  · rw [takes, leaves, Parameters.split_flatMap_quoted
      fun parameter member => (writable.parameters parameter member).1]
    rfl

theorem newline_not_mem_line : '\n' ∉ instruction.line := by
  unfold line
  rw [List.mem_append, not_or]
  constructor
  · intro inVerb
    have solid := writable.solid _ inVerb
    cases solid
  · intro inParameters
    obtain ⟨parameter, member, inside⟩ := List.mem_flatMap.mp inParameters
    have free := (writable.parameters parameter member).2.1
    simp [quoted, free] at inside

theorem ofText_line : Script.ofText instruction.line = [instruction.command 1] := by
  rw [Script.ofText_of_not_mem writable.newline_not_mem_line, writable.commandOfLine?_line]
  rfl

end Writable

end Instruction

/-! ### Scripts -/

namespace Script

/-- A copy, a verb without parameters, and parameters that are empty or blank at the ends. -/
def threeInstructions : List Instruction := [
  ⟨"copy".toList, ["tex/ui clicks/*.png".toList, "art\\".toList]⟩,
  ⟨"zip".toList, []⟩,
  ⟨"mp3-to-ogg/".toList, ["".toList, "/ \t\r".toList, "".toList]⟩]

/-- A written script is read back: the same verbs and parameters in order, on lines from one on. -/
theorem ofText_written {instructions : List Instruction}
    (writable : ∀ instruction ∈ instructions, instruction.Writable) :
    ofText (written instructions) =
      instructions.mapIdx fun index instruction => instruction.command (index + 1) := by
  induction instructions with
  | nil => rfl
  | cons instruction rest inductionHypothesis =>
    have here := writable instruction List.mem_cons_self
    have others := inductionHypothesis fun other member =>
      writable other (List.mem_cons_of_mem _ member)
    unfold written at others ⊢
    rw [List.mapIdx_cons, List.map_cons]
    by_cases last : rest = []
    · subst last
      exact here.ofText_line
    · have raised : (rest.mapIdx fun index instruction => instruction.command (index + 1)).map
          (Command.raised 1) = rest.mapIdx fun index instruction =>
            instruction.command (index + 1 + 1) :=
        List.ext_getElem (by simp) fun index _ _ => by simp [Instruction.command, Command.raised]
      rw [Text.joinWith_cons (by simpa using last), ofText_append_newline, here.ofText_line, others,
        List.count_eq_zero_of_not_mem here.newline_not_mem_line, raised]
      rfl

theorem ofText_written_threeInstructions :
    (∀ instruction ∈ threeInstructions, instruction.Writable) ∧
      ofText (written threeInstructions) = [
        ⟨1, "copy".toList, ["tex/ui clicks/*.png".toList, "art\\".toList]⟩,
        ⟨2, "zip".toList, []⟩,
        ⟨3, "mp3-to-ogg/".toList, ["".toList, "/ \t\r".toList, "".toList]⟩] := by
  have writable : ∀ instruction ∈ threeInstructions, instruction.Writable := by decide +kernel
  exact ⟨writable, ofText_written writable⟩

end Script

end AssetPipeline
