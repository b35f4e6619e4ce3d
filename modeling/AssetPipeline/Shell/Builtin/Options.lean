/-
This file holds the commands about the options and arguments of a script.
-/

import AssetPipeline.Shell.Builtin.Variables

namespace AssetPipeline.Shell

namespace Command

/-- The options by their names, in the order they are listed, and their letters. The last two have
letters that nobody can write. -/
def optionNames : List (String × Char) :=
  [("errexit", 'e'), ("noglob", 'f'), ("ignoreeof", 'I'), ("interactive", 'i'), ("monitor", 'm'),
    ("noexec", 'n'), ("stdin", 's'), ("xtrace", 'x'), ("verbose", 'v'), ("vi", 'V'),
    ("emacs", 'E'), ("noclobber", 'C'), ("allexport", 'a'), ("notify", 'b'), ("nounset", 'u'),
    ("privileged", 'p'), ("nolog", '\x01'), ("debug", '\x02')]

/-- Set an option, or take it back. -/
def switch (letter : Char) (on : Bool) : Act Unit :=
  modify fun process =>
    let others := process.options.filter (· != letter)
    { process with options := if on then letter :: others else others }

/-- Set an option by its letter, or take it back. -/
def switchLetter (letter : Char) (on : Bool) : Act Unit :=
  if Process.optionLetters.contains letter then switch letter on
  else Process.fail s!"Illegal option -{written [letter]}"

/-- Set an option by its name, or take it back. -/
def switchNamed (name : Text) (on : Bool) : Act Unit :=
  match optionNames.find? fun (known, _) => known.toList == name with
  | some (_, letter) => switch letter on
  | none => Process.fail s!"Illegal option -o {written name}"

/-- All options and whether they are set, for a reader or, with `asScript`, for the shell. -/
def optionListing (process : Process) (asScript : Bool) : Text :=
  if asScript then
    lines (optionNames.map fun (name, letter) =>
      let sign := if process.hasOption letter then "-" else "+"
      ascii s!"set {sign}o {name}")
  else
    let header := ascii "Current option settings"
    lines (header :: optionNames.map fun (name, letter) =>
      let padding := String.ofList (List.replicate (16 - name.length) ' ')
      let state := if process.hasOption letter then "on" else "off"
      ascii s!"{name}{padding}{state}")

/-- What options in front of arguments came to. -/
structure Switched where
  /-- The arguments behind the options. -/
  rest : List Text
  /-- Whether the options were ended by two hyphens. -/
  isEnded : Bool := false
  printed : Text := []
  /-- Whether the first argument is a script itself. -/
  takesScript : Bool := false

/-- Take the letters of options in an argument. The answer tells the arguments behind them, what
is printed, and whether a script is to follow. -/
def switchLetters (launches on : Bool) : Text → List Text → Act Switched
  | [], arguments => pure { rest := arguments }
  | letter :: letters, arguments => do
    if letter = 'c' ∧ launches then
      return { (← switchLetters launches on letters arguments) with takesScript := true }
    else if letter = 'o' then
      match arguments with
      | [] =>
        let printed := optionListing (← get) (!on)
        let others ← switchLetters launches on letters []
        return { others with printed := printed ++ others.printed }
      | name :: rest =>
        switchNamed name on
        switchLetters launches on letters rest
    else
      switchLetter letter on
      switchLetters launches on letters arguments

/-- Take the options in front of arguments. -/
def switchesWithin (launches : Bool) : Nat → List Text → Act Switched
  | 0, arguments => pure { rest := arguments }
  | fuel + 1, arguments => do
    match arguments with
    | ['-', '-'] :: rest => return { rest, isEnded := true }
    | ['-'] :: rest =>
      if ¬ launches then
        switch 'x' false
        switch 'v' false
      return { rest }
    | ('-' :: letters) :: rest => goOn fuel true letters rest
    | ('+' :: letters) :: rest => goOn fuel false letters rest
    | _ => return { rest := arguments }
where
  /-- Take the letters of options, and the options behind them. -/
  goOn (fuel : Nat) (on : Bool) (letters : Text) (rest : List Text) : Act Switched := do
    let first ← switchLetters launches on letters rest
    let others ← switchesWithin launches fuel first.rest
    return { others with
      printed := first.printed ++ others.printed
      takesScript := first.takesScript || others.takesScript }

/-- Take the options in front of arguments. -/
def switches (launches : Bool) (arguments : List Text) : Act Switched :=
  switchesWithin launches (arguments.length + 1) arguments

/-- Let the script have other arguments. -/
def setArguments (arguments : List Text) : Act Unit :=
  modify fun process => { process with arguments, optionIndex := 1, optionOffset? := none }

/-- Set options and arguments or, without any, list the variables. -/
def setting : Command := fun arguments => do
  if arguments.isEmpty then
    return { printed := listing (← get) [] (·.value?.isSome) }
  else
    let switched ← switches false arguments
    if switched.isEnded || !switched.rest.isEmpty then setArguments switched.rest
    return { printed := switched.printed }

/-- Take arguments off the front. -/
def shifting : Command := fun arguments => do
  let count ←
    match arguments with
    | [] => pure 1
    | argument :: _ => number argument
  let process ← get
  if process.arguments.length < count then Process.fail "can't shift that many"
  else
    setArguments (process.arguments.drop count)
    return {}

/-! ### Options of arguments -/

/-- What is known about an option letter: whether it is one, and whether it takes a value. -/
def letterTakes? (letter : Char) : Text → Option Bool
  | [] => none
  | known :: ':' :: rest => if known = letter then some true else letterTakes? letter rest
  | known :: rest => if known = letter then some false else letterTakes? letter rest

/-- Where the next option is read. -/
structure OptionPlace where
  /-- The rest of the argument that the option stands in; none at the end of the options. -/
  rest? : Option Text
  /-- The arguments that have been begun. -/
  index : Nat

/-- The place of the next option, when so many arguments have been begun. -/
def optionPlace (process : Process) (arguments : List Text) : OptionPlace :=
  let index := process.optionIndex - 1
  let current := (arguments[index - 1]?).getD []
  let rest :=
    match process.optionOffset? with
    | some offset => if index = 0 then [] else current.drop offset
    | none => []
  if ¬ rest.isEmpty then ⟨some rest, index⟩
  else
    match arguments[index]? with
    | some ['-', '-'] => ⟨none, index + 1⟩
    | some ('-' :: letter :: more) => ⟨some (letter :: more), index + 1⟩
    | _ => ⟨none, index⟩

/-- Give the variable of option values a value, or none. -/
def setOptionValue (value? : Option Text) : Act Unit :=
  let name := ascii "OPTARG"
  match value? with
  | some value => Process.assign name value
  | none => Process.unassign name

/-- Read an option; the answer is its letter or what takes its place, and where to read on. -/
def readOption (letters : Text) (arguments : List Text) (place : OptionPlace) :
    Act (Char × OptionPlace) := do
  let isQuiet := letters.head? == some ':'
  match place.rest? with
  | none | some [] => return ('?', ⟨none, place.index⟩)
  | some (letter :: rest) =>
    match letterTakes? letter letters with
    | none =>
      if isQuiet then setOptionValue (some [letter])
      else
        Process.mutter (ascii s!"Illegal option -{written [letter]}\n")
        setOptionValue none
      return ('?', ⟨some rest, place.index⟩)
    | some false =>
      setOptionValue (some [])
      return (letter, ⟨some rest, place.index⟩)
    | some true =>
      if ¬ rest.isEmpty then
        setOptionValue (some rest)
        return (letter, ⟨none, place.index⟩)
      else
        match arguments[place.index]? with
        | some value =>
          setOptionValue (some value)
          return (letter, ⟨none, place.index + 1⟩)
        | none =>
          if isQuiet then
            setOptionValue (some [letter])
            return (':', ⟨none, place.index⟩)
          else
            Process.mutter (ascii s!"No arg for -{written [letter]} option\n")
            setOptionValue none
            return ('?', ⟨none, place.index⟩)

/-- Read the next option of the arguments into a variable. -/
def gettingOptions : Command := fun arguments => do
  match ← operands arguments with
  | letters :: name :: given => do
    let process ← get
    let read := if given.isEmpty then process.arguments else given
    if read.length + 1 < process.optionIndex then
      modify fun process => { process with optionIndex := 1, optionOffset? := none }
    let place := optionPlace (← get) read
    let (letter, next) ← readOption letters read place
    let index := next.index + 1
    Process.assign Process.optionVariable (Process.digits index)
    Process.assign name [letter]
    let current := (read[next.index - 1]?).getD []
    let offset? := next.rest?.map fun rest => current.length - rest.length
    modify fun process => { process with optionIndex := index, optionOffset? := offset? }
    return { status := statusOf place.rest?.isSome }
  | _ => Process.fail "Usage: getopts optstring var [arg...]"

end Command

end AssetPipeline.Shell
