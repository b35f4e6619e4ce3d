/-
This file lets the two programs act on a real file system: it loads the part of the file tree that
they can reach, runs a program on it, prints what the program printed, and saves what it changed.
What can be reached is the working directory with everything below it, and what arguments name by
an absolute path.

The system does not tell the modes of files here, so a file that can be read counts as one that
its owner may also write and execute, and a directory that cannot be read as one that may not be
listed. Saved files get the system's time.
-/

import AssetPipeline.CommandLine.BuildProgram
import AssetPipeline.CommandLine.EncodeProgram

namespace AssetPipeline.FileSystem

/-! ### Loading -/

def instantOf (time : IO.FS.SystemTime) : Instant := ⟨time.sec, time.nsec.toNat⟩

/-- The location of an absolute path without links. -/
def locationOf (path : Path) : Location :=
  path.components.filterMap fun
    | .name name => some name
    | _ => none

/-- The mode of a file that can be read. -/
def readableMode : Mode := ⟨0o755⟩

/-- The mode of a file that cannot be read. -/
def hiddenMode : Mode := ⟨0⟩

/-- What stands at an entry that is not a directory. -/
def loadLeaf (entry : IO.FS.DirEntry) (data : IO.FS.Metadata) : IO Node := do
  if data.type == .symlink then
    try
      let target ← IO.FS.realPath entry.path
      return .link (.ofString target.toString)
    catch _ => return .link ⟨[]⟩
  else
    try
      let content ← IO.FS.readBinFile entry.path
      return .file ⟨content.toList, instantOf data.modified, readableMode⟩
    catch _ => return .file ⟨[], instantOf data.modified, hiddenMode⟩

/-- A part of a file tree: what stands where, and the directories that may not be listed. -/
structure Loaded where
  nodes : List (Location × Node) := []
  closed : List Location := []

instance : Append Loaded :=
  ⟨fun first second => ⟨first.nodes ++ second.nodes, first.closed ++ second.closed⟩⟩

/-- The entries of a directory, unless it may not be listed. -/
def entries? (directory : IO.FS.DirEntry) : IO (Option (Array IO.FS.DirEntry)) := do
  try return some (← directory.path.readDir)
  catch _ => return none

/-- Everything at and below an entry. Links are not followed, so the walk ends. -/
partial def load (location : Location) (entry : IO.FS.DirEntry) : IO Loaded := do
  let data ← entry.path.symlinkMetadata
  if data.type == .dir then
    match ← entries? entry with
    | none => return ⟨[(location, .directory)], [location]⟩
    | some entries =>
      let mut loaded : Loaded := ⟨[(location, .directory)], []⟩
      for inner in entries do
        loaded := loaded ++ (← load (location.child inner.fileName.toList) inner)
      return loaded
  else return ⟨[(location, ← loadLeaf entry data)], []⟩

def above (location : Location) : Loaded :=
  ⟨(List.range location.length).map fun length => (location.take length, .directory), []⟩

/-- The first of several paths that leads anywhere, as a directory whose entries are unknown. -/
def loadNearest : List Path → IO Loaded
  | [] => return {}
  | path :: rest => do
    try
      let place ← IO.FS.realPath (toString path)
      let location := locationOf (.ofString place.toString)
      return above location ++ ⟨[(location, .directory)], []⟩
    catch _ => loadNearest rest

/-- What an absolute path leads to, or the nearest directory above that exists. -/
def loadPath (path : Path) : IO Loaded := do
  try
    let place ← IO.FS.realPath (toString path)
    let target := Path.ofString place.toString
    let location := locationOf target
    let named := locationOf path
    let link : Loaded :=
      if named = location then {} else above named ++ ⟨[(named, .link target)], []⟩
    let entry : IO.FS.DirEntry := ⟨place.parent.getD place, place.fileName.getD "."⟩
    return link ++ above location ++ (← load location entry)
  catch _ => loadNearest (path.ancestors.drop 1)

/-- What has to be loaded for a path: of a pattern, its directory. -/
def reached (path : Path) : Path :=
  let name := path.fileName?.getD []
  if name.contains '*' || name.contains '?' then path.parent?.getD path else path

/-- The absolute paths that an argument names, alone or behind an equals sign. -/
def absolutePaths (argument : Text) : List Path :=
  let value := (argument.dropWhile (· != '=')).drop 1
  ([argument, value].map fun text => reached ⟨text⟩).filter fun path =>
    path.isAbsolute && 1 < path.components.length

/-- A time that no file is later than. -/
def latest (nodes : List (Location × Node)) : Instant :=
  nodes.foldl (fun latest (_, node) =>
    match node with
    | .file file => if latest.notAfter file.modified then file.modified else latest
    | _ => latest) ⟨0, 0⟩

/-- The file tree as far as a program with these arguments can reach it. -/
def loadTree (arguments : List Text) : IO FileTree := do
  let place ← IO.currentDir
  let workingDirectory := locationOf (.ofString place.toString)
  let mut loaded := above workingDirectory ++ (← load workingDirectory ⟨place, "."⟩)
  for path in arguments.flatMap absolutePaths do
    loaded := loaded ++ (← loadPath path)
  let ⟨nodes, closed⟩ := loaded
  return { nodes, workingDirectory, clock := latest nodes, closed }

/-! ### Saving -/

/-- Save what stands at a location. Programs make no links. -/
def saveNode (location : Location) : Node → IO Unit
  | .directory => IO.FS.createDir (toString location.path)
  | .file file => IO.FS.writeBinFile (toString location.path) ⟨file.content.toArray⟩
  | .link _ => return

/-- Does the first location lie no deeper than the second? -/
def notDeeper (first second : Location × Node) : Bool := first.1.length ≤ second.1.length

/-- Save what is different in a tree: what is new or changed, upper directories first, and what
is gone. -/
def saveTree (before after : FileTree) : IO Unit := do
  for (location, _) in after.nodes.mergeSort notDeeper do
    if let some node := after.node? location then
      if before.node? location ≠ some node then saveNode location node
  for (location, _) in before.nodes do
    if (after.node? location).isNone then IO.FS.removeFile (toString location.path)

/-! ### Running -/

/-- Where the programs run: beside this executable, with the usual search path. -/
def surroundings : IO CommandLine.BuildProgram.Surroundings := do
  let executable ← IO.appPath
  let searchPath := (← IO.getEnv "PATH").getD ""
  let installation := ((Path.ofString executable.toString).parent?).getD ⟨Path.dot⟩
  let places := (Text.splitOn ':' searchPath.toList).filter (· ≠ [])
  return ⟨installation, places.map Path.mk⟩

/-- A key of random bytes. -/
def freshKey : IO Key := do
  let random ← IO.getRandomBytes keyLength.toUSize
  return ((Key.generate? random.toList).map Prod.fst).getD .standard

/-- The end of the program that the first argument names, run with the others on a tree. -/
def ending? (program : String) (arguments : List Text) (tree : FileTree) :
    IO (Option CommandLine.Ending) := do
  if program = "build-data" then
    return some (CommandLine.BuildProgram.run (← surroundings) arguments tree)
  else if program = "encode-file" then
    return some (CommandLine.EncodeProgram.run (← freshKey) arguments tree)
  else return none

/-- Say how the programs are used. -/
def misuse : IO Nat := do
  IO.eprint s!"{CommandLine.BuildProgram.usage}\n{CommandLine.EncodeProgram.usage}"
  return CommandLine.Ending.misuseCode

/-- Run the program that the first argument names, and answer with its exit code. -/
def run : List String → IO Nat
  | [] => misuse
  | program :: arguments => do
    let texts := arguments.map String.toList
    let tree ← loadTree texts
    match ← ending? program texts tree with
    | none => misuse
    | some ending =>
      IO.print ending.output
      IO.eprint ending.errors
      saveTree tree ending.tree
      return ending.code

end AssetPipeline.FileSystem

/-- Run the program that the first argument names. -/
def main (arguments : List String) : IO UInt32 := do
  return (← AssetPipeline.FileSystem.run arguments).toUInt32
