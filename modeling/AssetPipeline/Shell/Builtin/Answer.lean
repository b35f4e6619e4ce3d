/-
This file says what a command of the shell itself comes to: a status, and a text that it prints
when it is done. It reads the options that commands have in front of their operands.
-/

import AssetPipeline.Shell.Redirect

namespace AssetPipeline.Shell

/-- What a command came to. -/
structure Answer where
  status : Nat := 0
  printed : Text := []

/-- A command of the shell itself, which takes arguments. -/
abbrev Command := List Text → Act Answer

/-- An option of a command, and its value if it has one. -/
structure Choice where
  letter : Char
  value : Text := []

namespace Command

/-- The options in an argument, behind its hyphen, and the arguments behind them. An option that
takes a value has it in the rest of the argument or in the next one. -/
def letterChoices (letters valued : List Char) : Text → List Text →
    Act (List Choice × List Text)
  | [], arguments => pure ([], arguments)
  | letter :: rest, arguments => do
    if valued.contains letter then
      match rest, arguments with
      | _ :: _, _ => return ([⟨letter, rest⟩], arguments)
      | [], value :: others => return ([⟨letter, value⟩], others)
      | [], [] => Process.fail s!"No arg for -{written [letter]} option"
    else if letters.contains letter then
      let (others, behind) ← letterChoices letters valued rest arguments
      return (⟨letter, []⟩ :: others, behind)
    else Process.fail s!"Illegal option -{written [letter]}"

/-- The options in front of arguments, and the operands behind them. -/
def choicesWithin (letters valued : List Char) : Nat → List Text → Act (List Choice × List Text)
  | 0, arguments => pure ([], arguments)
  | fuel + 1, arguments => do
    match arguments with
    | ['-', '-'] :: rest => return ([], rest)
    | ('-' :: letter :: more) :: rest =>
      let (first, behind) ← letterChoices letters valued (letter :: more) rest
      let (others, operands) ← choicesWithin letters valued fuel behind
      return (first ++ others, operands)
    | _ => return ([], arguments)

/-- The options in front of arguments, some of which take a value, and the operands behind. -/
def choices (letters valued : String) (arguments : List Text) : Act (List Choice × List Text) :=
  choicesWithin letters.toList valued.toList (arguments.length + 1) arguments

/-- The operands of a command without options. -/
def operands (arguments : List Text) : Act (List Text) := do
  return (← choices "" "" arguments).2

/-- The number without a sign that an argument writes. -/
def number (argument : Text) : Act Nat :=
  match count? argument with
  | some number => pure number
  | none => Process.fail s!"Illegal number: {written argument}"

/-- Go through arguments, and remember whether all went well. -/
def eachOf (act : Text → Act Bool) : List Text → Act Bool
  | [] => pure true
  | argument :: others => do
    let went ← act argument
    let rest ← eachOf act others
    return went && rest

/-- The status for something that went well or not. -/
def statusOf (went : Bool) : Nat := if went then 0 else 1

/-- A text in quotes, so that a script can read it again. Its single quotes stand in double quotes
of their own. -/
def quoteWithin : Nat → Text → Text
  | 0, _ => []
  | fuel + 1, text =>
    let front := text.takeWhile (· != '\'')
    let behind := text.dropWhile (· != '\'')
    let marks := behind.takeWhile (· == '\'')
    let rest := behind.dropWhile (· == '\'')
    let quoted := '\'' :: front ++ ['\'']
    if marks.isEmpty then quoted
    else
      let both := quoted ++ '"' :: marks ++ ['"']
      if rest.isEmpty then both else both ++ quoteWithin fuel rest

/-- A text in quotes, so that a script can read it again. -/
def quote (text : Text) : Text := quoteWithin (text.length + 1) text

/-- Lines, each with a line end. -/
def lines (texts : List Text) : Text := texts.flatMap (· ++ ['\n'])

end Command

end AssetPipeline.Shell
