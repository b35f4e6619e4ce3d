/-
This file reads the arguments of a command: options, which begin with a hyphen, and positional
arguments in between. An option has a long name behind two hyphens and a letter behind one;
letters can be joined behind one hyphen. The value of an option that takes one stands behind it,
behind an equals sign, or right behind the letter. Behind `--` there are no options.

The arguments are read from left to right and the first that is out of place, or that asks for
help, decides. An option may be given once. No value and no positional argument is empty.
-/

import AssetPipeline.Text.Basic

namespace AssetPipeline.CommandLine

/-- What an option is called, and whether it takes a value. -/
structure OptionForm where
  long : Text
  letter : Char
  takesValue : Bool
  deriving DecidableEq

/-- What a command takes: its options, and at most so many positional arguments. -/
structure Form where
  options : List OptionForm
  most? : Option Nat
  deriving DecidableEq

/-- Why arguments ask for nothing to be done. -/
inductive Halt where
  /-- They are out of place. -/
  | misuse
  /-- They ask for help. -/
  | help
  /-- They ask for the version. -/
  | version
  deriving DecidableEq

/-- Arguments that have been read. -/
structure Arguments where
  positional : List Text := []
  /-- The options given without a value, by their long names. -/
  flags : List Text := []
  /-- The options given with a value. -/
  values : List (Text × Text) := []
  deriving DecidableEq

namespace Arguments

def value? (arguments : Arguments) (long : Text) : Option Text := arguments.values.lookup long

def addValue (arguments : Arguments) (long value : Text) : Except Halt Arguments :=
  if value = [] ∨ (arguments.value? long).isSome then .error .misuse
  else .ok { arguments with values := arguments.values ++ [(long, value)] }

/-- Add an option without a value. -/
def addFlag (arguments : Arguments) (long : Text) : Except Halt Arguments :=
  if arguments.flags.contains long then .error .misuse
  else .ok { arguments with flags := arguments.flags ++ [long] }

def addPositional (arguments : Arguments) (form : Form) (value : Text) : Except Halt Arguments :=
  let positional := arguments.positional ++ [value]
  if value = [] ∨ form.most?.any (· < positional.length) then .error .misuse
  else .ok { arguments with positional }

def addPositionals (form : Form) : List Text → Arguments → Except Halt Arguments
  | [], arguments => .ok arguments
  | value :: rest, arguments =>
    match arguments.addPositional form value with
    | .error halt => .error halt
    | .ok added => addPositionals form rest added

/-- Arguments, and the option whose value has to follow. -/
abbrev Pending := Arguments × Option Text

/-- Add an option that was given by its long name. -/
def addLong (arguments : Arguments) (form : Form) (text : Text) : Except Halt Pending :=
  let long := text.takeWhile (· != '=')
  let value? := (text.dropWhile (· != '=')).tail?
  if long = "help".toList then
    if value?.isSome then .error .misuse else .error .help
  else
    match form.options.find? (·.long == long), value? with
    | none, _ => .error .misuse
    | some option, some value =>
      if option.takesValue then (arguments.addValue long value).map (·, none) else .error .misuse
    | some option, none =>
      if option.takesValue then .ok (arguments, some long)
      else (arguments.addFlag long).map (·, none)

/-- Add the options that were given by letters. -/
def addLetters (form : Form) : Text → Arguments → Except Halt Pending
  | [], arguments => .ok (arguments, none)
  | letter :: rest, arguments =>
    if letter = 'h' then .error .help
    else
      match form.options.find? (·.letter == letter) with
      | none => .error .misuse
      | some option =>
        if option.takesValue then
          match rest with
          | [] => .ok (arguments, some option.long)
          | '=' :: value => (arguments.addValue option.long value).map (·, none)
          | value => (arguments.addValue option.long value).map (·, none)
        else
          match arguments.addFlag option.long with
          | .error halt => .error halt
          | .ok added => addLetters form rest added

/-- Is an argument an option? A hyphen alone is none. -/
def isOption : Text → Bool
  | '-' :: _ :: _ => true
  | _ => false

def addOption (arguments : Arguments) (form : Form) : Text → Except Halt Pending
  | '-' :: '-' :: long => arguments.addLong form long
  | '-' :: letters => addLetters form letters arguments
  | _ => .error .misuse

def read (form : Form) : List Text → Arguments → Except Halt Arguments
  | [], arguments => .ok arguments
  | argument :: rest, arguments =>
    if argument = "--".toList then addPositionals form rest arguments
    else if isOption argument then
      match arguments.addOption form argument, rest with
      | .error halt, _ => .error halt
      | .ok (added, none), rest => read form rest added
      | .ok (_, some _), [] => .error .misuse
      | .ok (added, some long), value :: rest =>
        if isOption value then .error .misuse
        else
          match added.addValue long value with
          | .error halt => .error halt
          | .ok added => read form rest added
    else
      match arguments.addPositional form argument with
      | .error halt => .error halt
      | .ok added => read form rest added

end Arguments

/-- The command that arguments name, and the arguments for it. In front of a command there may
only be a request for help or for the version, and `help` may be followed by one command. -/
def chooseCommand (commands : List Text) : List Text → Except Halt (Text × List Text)
  | [] => .error .misuse
  | name :: rest =>
    if name = "--help".toList ∨ "-h".toList.isPrefixOf name then .error .help
    else if name = "--version".toList ∨ "-V".toList.isPrefixOf name then .error .version
    else if name = "help".toList then
      match rest with
      | [] => .error .help
      | [topic] => if commands.contains topic ∨ topic = name then .error .help else .error .misuse
      | _ => .error .misuse
    else if commands.contains name then .ok (name, rest)
    else .error .misuse

end AssetPipeline.CommandLine
