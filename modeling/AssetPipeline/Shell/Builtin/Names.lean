/-
This file says what names mean to a script, and holds the commands that tell or change it: a name
may be an alias, a function, a command of the shell itself, or a program in the search path.
-/

import AssetPipeline.Shell.Builtin.Flow
import AssetPipeline.Shell.Reader

namespace AssetPipeline.Shell

/-- The commands of the shell itself. -/
def shellCommands : List String :=
  [".", ":", "[", "alias", "bg", "break", "cd", "chdir", "command", "continue", "echo", "eval",
    "exec", "exit", "export", "false", "fg", "getopts", "hash", "jobs", "kill", "local", "printf",
    "pwd", "read", "readonly", "return", "set", "shift", "test", "times", "trap", "true", "type",
    "ulimit", "umask", "unalias", "unset", "wait"]

/-- The commands whose arguments may be assignments. -/
def assigningCommands : List String := ["alias", "export", "local", "readonly"]

/-- What looking for a program came to. -/
inductive Search where
  | found (path : Text)
  /-- There is no program, for this reason. -/
  | missing (words : String)

namespace Search

/-- What there is at a path: a program, something else, or nothing. -/
def isProgram (tree : FileTree) (path : Text) : Except Fault Bool :=
  (tree.lookup (pathOf path)).map fun node =>
    match node with
    | .file file => file.mode.ownerExecutes
    | _ => false

/-- What is said about a program that is missing for this reason. -/
def wordsOf : Fault → String
  | .notFound | .notADirectory => "not found"
  | fault => Process.systemWords fault

/-- The path of a name in a directory of the search path; an empty directory is the working one. -/
def pathIn (directory name : Text) : Text :=
  if directory.isEmpty then name else directory ++ '/' :: name

/-- Look for a program in directories. -/
def among (tree : FileTree) (name : Text) (fault : Fault) : List Text → Search
  | [] => .missing (wordsOf fault)
  | directory :: others =>
    let path := pathIn directory name
    match isProgram tree path with
    | .ok true => .found path
    | .ok false => among tree name .permissionDenied others
    | .error .notFound | .error .notADirectory => among tree name fault others
    | .error other => among tree name other others

end Search

namespace Process

/-- Look for a program in the search path. -/
def search (process : Process) (name : Text) : Search :=
  match process.value? searchPath with
  | none => .missing (Search.wordsOf .notFound)
  | some directories =>
    Search.among process.system.tree name .notFound (Text.splitOn ':' directories)

end Process

/-- What a name means as a command. -/
inductive Meaning where
  | shell
  | function (body : Statement)
  /-- A program at a path; `searched` if it was looked for in the search path. -/
  | program (path : Text) (searched : Bool)
  | nothing (words : String)

namespace Process

/-- What a name means as a command. Functions do not count unless `callsFunctions`. -/
def meaning (process : Process) (callsFunctions : Bool) (name : Text) : Meaning :=
  let function? := if callsFunctions then process.functions.lookup name else none
  if isAmong specialCommands name then .shell
  else
    match function? with
    | some body => .function body
    | none =>
      if name.contains '/' then .program name false
      else if isAmong shellCommands name then .shell
      else
        match process.search name with
        | .found path => .program path true
        | .missing words => .nothing words

/-- Remember that a program was found. -/
def locate (name : Text) : Act Unit :=
  modify fun process =>
    if process.located.contains name then process
    else { process with located := process.located ++ [name] }

end Process

namespace Command

/-! ### Aliases -/

/-- The drawer of a cabinet with so many drawers that a name is kept in. -/
def drawer (count : Nat) (name : Text) : Nat :=
  ((name.head?.map (·.toNat * 16)).getD 0 + (name.map Char.toNat).foldr (· + ·) 0) % count

/-- Names in the order of their drawers, the oldest first in each. -/
def inDrawers {Item : Type} (count : Nat) (items : List (Text × Item)) : List (Text × Item) :=
  items.mergeSort fun first second => drawer count first.1 ≤ drawer count second.1

/-- The drawers of aliases. -/
def aliasDrawers : Nat := 39

/-- The drawers of programs that were found. -/
def programDrawers : Nat := 31

/-- Set an alias, or tell what it stands for. The first character of an argument belongs to the
name. -/
def aliasOne (argument : Text) : Act (Bool × Text) := do
  let process ← get
  let (more, text?) := assigned (argument.drop 1)
  let name := argument.take 1 ++ more
  match text? with
  | some text =>
    let aliases :=
      if process.aliases.any (·.1 == name) then
        process.aliases.map fun known => if known.1 = name then (name, text) else known
      else process.aliases ++ [(name, text)]
    set { process with aliases }
    return (true, [])
  | none =>
    match process.aliases.lookup name with
    | some text => return (true, lines [listed name (some text)])
    | none =>
      Process.mutter (ascii s!"alias: {written name} not found\n")
      return (false, [])

/-- Set aliases, or tell what they stand for. -/
def aliasing : Command := fun arguments => do
  if arguments.isEmpty then
    let known := inDrawers aliasDrawers (← get).aliases
    return { printed := lines (known.map fun (name, text) => listed name (some text)) }
  else
    let answers ← arguments.mapM aliasOne
    return {
      status := statusOf (answers.all (·.1))
      printed := answers.flatMap (·.2) }

/-- Take an alias away; the answer tells whether there was one. -/
def unaliasOne (name : Text) : Act Bool := do
  let process ← get
  if process.aliases.any (·.1 == name) then
    set { process with aliases := process.aliases.filter (·.1 != name) }
    return true
  else
    Process.mutter (ascii s!"unalias: {written name} not found\n")
    return false

/-- Take aliases away. -/
def unaliasing : Command := fun arguments => do
  let (chosen, names) ← choices "a" "" arguments
  if chosen.isEmpty then return { status := statusOf (← eachOf unaliasOne names) }
  else
    modify fun process => { process with aliases := [] }
    return {}

/-! ### Descriptions -/

/-- What a name means, in words or briefly, and whether it means anything. -/
def describe (process : Process) (inWords : Bool) (name : Text) : Text × Bool :=
  let line (words : String) (brief : Text) : Text × Bool :=
    (if inWords then name ++ ascii s!" is {words}\n" else brief ++ ['\n'], true)
  let unknown : Text × Bool := (if inWords then name ++ ascii ": not found\n" else [], false)
  if isAmong keywords name then line "a shell keyword" name
  else
    match process.aliases.lookup name with
    | some text => line s!"an alias for {written text}" (ascii "alias " ++ listed name (some text))
    | none =>
      match process.meaning true name with
      | .shell =>
        let kind := if isAmong specialCommands name then "a special" else "a"
        line s!"{kind} shell builtin" name
      | .function _ => line "a shell function" name
      | .program path true =>
        let isKnown := process.located.contains name
        line (if isKnown then s!"a tracked alias for {written path}" else written path) path
      | .program path false =>
        match process.system.tree.lookup (pathOf path) with
        | .ok _ => line (written path) path
        | .error _ => unknown
      | .nothing _ => unknown

/-- Tell in words what names mean. -/
def typing : Command := fun arguments => do
  let answers := arguments.map (describe (← get) true)
  return {
    status := if answers.all (·.2) then 0 else 127
    printed := answers.flatMap (·.1) }

/-- Tell what a name means, in words or briefly. -/
def commanding : Command := fun arguments => do
  let (chosen, names) ← choices "pvV" "" arguments
  let inWords := chosen.any (·.letter == 'V')
  let isStandard := chosen.any (·.letter == 'p')
  match names with
  | [] => return {}
  | name :: _ =>
    if inWords || chosen.any (·.letter == 'v') then
      let process ← get
      let seen := if isStandard then process.unbind Process.searchPath else process
      let (printed, isKnown) := describe seen inWords name
      return { status := if isKnown then 0 else 127, printed }
    else return {}

/-- Look for a program, and remember it; the answer tells whether there is one. -/
def locateOne (name : Text) : Act Bool := do
  match (← get).meaning true name with
  | .nothing words =>
    Process.complain s!"{written name}: {words}"
    return false
  | .program _ true =>
    Process.locate name
    return true
  | _ => return true

/-- The paths of programs that have been found. -/
def locatedPaths (process : Process) : List Text :=
  (inDrawers programDrawers (process.located.map ((·, ())))).filterMap fun (name, _) =>
    match process.search name with
    | .found path => some path
    | .missing _ => none

/-- Remember programs, forget them, or list them. -/
def hashing : Command := fun arguments => do
  let (chosen, names) ← choices "rv" "" arguments
  if chosen.any (·.letter == 'r') then
    modify fun process => { process with located := [] }
    return {}
  else if names.isEmpty then return { printed := lines (locatedPaths (← get)) }
  else return { status := statusOf (← eachOf locateOne names) }

end Command

end AssetPipeline.Shell
