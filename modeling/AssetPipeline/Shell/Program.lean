/-
This file says what starting a file as a program comes to. A file that begins with `#!` names an
interpreter, which is started with the path of the file; interpreters may be files of that kind
themselves. In the end the shell is started, or the command that looks for a program by its name.
-/

import AssetPipeline.Shell.Builtin

namespace AssetPipeline.Shell

/-- What is started in the end. -/
inductive Startup where
  | shell (name : Text) (arguments : List Text)
  /-- The command that looks for a program by its name. -/
  | finder (name : Text) (arguments : List Text)

namespace Startup

/-- Where the shell is, by its names. These are not part of the tree. -/
def shells : List String := ["/bin/sh", "/usr/bin/sh", "/bin/dash", "/usr/bin/dash"]

/-- Where the command is that looks for a program by its name. -/
def finders : List String := ["/usr/bin/env", "/bin/env"]

/-- The part of a file that an interpreter has to be named in. -/
def headLength : Nat := 256

/-- The interpreter that the first line of a file names, and the argument it is to get. The line
has to end in the first part of the file, or at least the name has to. -/
def interpreter? (content : Bytes) : Option (Text × Option Text) :=
  let isSpacing (character : Char) : Bool := character == ' ' || character == '\t'
  let head := Text.octetsOfBytes (content.take headLength)
  match head with
  | '#' :: '!' :: rest =>
    let line := (rest.takeWhile (· != '\n')).takeWhile (· != '\x00')
    let trimmed := ((line.reverse.dropWhile isSpacing).reverse).dropWhile isSpacing
    let name := trimmed.takeWhile (!isSpacing ·)
    let argument := (trimmed.dropWhile (!isSpacing ·)).dropWhile isSpacing
    let isWhole := rest.contains '\n' || content.length < headLength || !argument.isEmpty
    if name.isEmpty || !isWhole then none
    else some (name, if argument.isEmpty then none else some argument)
  | _ => none

/-- How deeply interpreters may name interpreters. -/
def interpreterLimit : Nat := 5

/-- What starting a path with arguments comes to. -/
def ofPath (tree : FileTree) : Nat → Text → List Text → Except Fault Startup
  | limit, path, arguments =>
    if isAmong shells path then .ok (.shell path arguments)
    else if isAmong finders path then .ok (.finder path arguments)
    else
      match tree.lookup (pathOf path) with
      | .error fault => .error fault
      | .ok (.file file) =>
        if ¬ file.mode.ownerExecutes then .error .permissionDenied
        else
          match interpreter? file.content with
          | none => .error .notAProgram
          | some (interpreter, argument?) =>
            match limit with
            | 0 => .error .tooManyLinks
            | limit + 1 => ofPath tree limit interpreter (argument?.toList ++ path :: arguments)
      | .ok _ => .error .permissionDenied

/-- What starting a path with arguments comes to, where the shell takes what is no program. -/
def ofPathOrText (tree : FileTree) (path : Text) (arguments : List Text) :
    Except Fault Startup :=
  match ofPath tree interpreterLimit path arguments with
  | .error .notAProgram => .ok (.shell (ascii "/bin/sh") (path :: arguments))
  | startup => startup

end Startup

namespace Process

/-- A process that is started with variables that are shared with it. -/
def fresh (system : System) (descriptors : List (Nat × Nat)) (number parent : Nat)
    (shared : List (Text × Text)) : Process :=
  let imported := shared.map fun (name, value) => (name, ({ value? := some value, isExported := true } : Binding))
  let place := Text.octets system.tree.workingDirectory.path.text
  let named := (shared.lookup workingDirectory).getD []
  let leads := (system.tree.locate (pathOf named)).toOption == some system.tree.workingDirectory
  let directory := if named.head? == some '/' && leads then named else place
  let start : Process :=
    { system, descriptors, script := [], bindings := imported, number, parent, directory }
  let own : List (Text × Text) :=
    [(separators, Fragment.blanks), (optionVariable, ['1']), (ascii "PS1", ascii "$ "),
      (ascii "PS2", ascii "> "), (ascii "PS4", ascii "+ "), (ascii "PPID", digits parent)]
  let filled := own.foldl (fun process (name, value) => process.bind name { value? := some value })
    start
  filled.bind workingDirectory { value? := some directory, isExported := true }

/-- The variables that are shared with programs. -/
def shared (process : Process) : List (Text × Text) :=
  process.bindings.filterMap fun (name, binding) =>
    if binding.isExported then binding.value?.map ((name, ·)) else none

end Process

end AssetPipeline.Shell
