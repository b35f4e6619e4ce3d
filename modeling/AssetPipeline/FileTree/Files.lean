/-
This file holds the operations on regular files: reading, creating, writing, copying, setting
the time of modification, removing.

Files belong to a user who owns all of them, so the owner's bits decide what is allowed. Opening
a file to write needs its write bit; creating one, and changing its mode or time, needs none. A
created file takes the mode it was wished with, less the bits that others' writing would need.
-/

import AssetPipeline.FileTree.Lookup

namespace AssetPipeline

namespace Path

/-- The steps without the empty ones that separators at the end leave. -/
def solidSteps (path : Path) : List Text :=
  (path.steps.reverse.dropWhile (· == [])).reverse

/-- How a path ends, which decides what may be created or removed there. -/
inductive Ending where
  /-- In a name. -/
  | name
  /-- In a name and then a separator. -/
  | slashed
  /-- In a `.`, a `..` or the root. -/
  | dots
  deriving DecidableEq

/-- How the path ends. -/
def ending (path : Path) : Ending :=
  match path.solidSteps.getLast? with
  | none => .dots
  | some last =>
    if last = dot ∨ last = dotDot then .dots
    else if path.steps = path.solidSteps then .name
    else .slashed

/-- The steps to the directory that holds the last step. The empty step at the end insists on a
directory. -/
def holderSteps (path : Path) : List Text := path.solidSteps.dropLast ++ [[]]

end Path

namespace Mode

/-- The mode a file is created with by a user who keeps others from writing, when `mode` is wished
for. -/
def created (mode : Mode) : Mode := ⟨mode.bits &&& 0o7755⟩

end Mode

namespace FileTree

/-- Why no file is read from a location where there is none: what stands there may not be opened,
or else `otherwise`. -/
def unread (tree : FileTree) (location : Location) (otherwise : Fault) : Fault :=
  if tree.isClosedAt location then .permissionDenied else otherwise

/-- The bytes of the file at a path. -/
def readBytes (tree : FileTree) (path : Path) : Except Fault Bytes :=
  match tree.locate path with
  | .error fault => .error fault
  | .ok location =>
    match tree.file? location with
    | some file => if file.mode.ownerReads then .ok file.content else .error .permissionDenied
    | none => .error (tree.unread location .isADirectory)

/-- The characters that bytes encode in UTF-8, if they do. -/
def decodeText (bytes : Bytes) : Option Text :=
  (String.fromUTF8? ⟨bytes.toArray⟩).map String.toList

/-- The bytes that encode a text in UTF-8. -/
def encodeText (text : Text) : Bytes := (String.ofList text).toUTF8.toList

/-- The text of the file at a path. -/
def readText (tree : FileTree) (path : Path) : Except Fault Text :=
  match tree.readBytes path with
  | .error fault => .error fault
  | .ok bytes =>
    match decodeText bytes with
    | none => .error .notText
    | some text => .ok text

/-- Open a file to write from its start: an existing file is emptied and keeps its mode, a
missing one gets `mode`. Answers with the file's location. -/
def create (tree : FileTree) (path : Path) (mode : Mode) : Except Fault (FileTree × Location) :=
  match tree.place .newFile path with
  | .error fault => .error fault
  | .ok (.vacant location) =>
    .ok (tree.put location (.file ⟨[], tree.clock, mode⟩), location)
  | .ok (.found location) =>
    match tree.node? location with
    | some (.file file) =>
      if file.mode.ownerWrites then
        .ok (tree.put location (.file ⟨[], tree.clock, file.mode⟩), location)
      else .error .permissionDenied
    | some .directory => .error .isADirectory
    | _ => .error .notFound

/-- Fill the file that `create` opened. -/
def fill (tree : FileTree) (location : Location) (content : Bytes) : FileTree :=
  match tree.file? location with
  | some file => tree.put location (.file { file with content := content })
  | none => tree

/-- Write a whole file. -/
def writeFile (tree : FileTree) (path : Path) (content : Bytes) : Except Fault FileTree :=
  match tree.create path .ordinary with
  | .error fault => .error fault
  | .ok (opened, location) => .ok (opened.fill location content)

/-- Copy a regular file with its mode. The copy fails before the target is touched or not at all,
for whatever is opened can be read and written to its end. -/
def copyFile (tree : FileTree) (source target : Path) : Except Fault FileTree :=
  match tree.locate source with
  | .error fault => .error fault
  | .ok sourceLocation =>
    match tree.file? sourceLocation with
    | none => .error (tree.unread sourceLocation .notARegularFile)
    | some file =>
      if file.mode.ownerReads then
        match tree.create target file.mode.created with
        | .error fault => .error fault
        | .ok (opened, targetLocation) =>
          let content := ((opened.file? sourceLocation).map File.content).getD []
          .ok (opened.put targetLocation (.file ⟨content, tree.clock, file.mode⟩))
      else .error .permissionDenied

/-- The time of modification of what stands at a location. A directory that was given none has
only just been changed. -/
def modifiedAt (tree : FileTree) (location : Location) : Instant :=
  match tree.node? location with
  | some (.file file) => file.modified
  | _ => (tree.directoryTimes.lookup location).getD tree.clock

/-- The time of modification of what stands at a path. -/
def modified (tree : FileTree) (path : Path) : Except Fault Instant :=
  (tree.locate path).map tree.modifiedAt

/-- Set the time of modification of what stands at a path. -/
def setModified (tree : FileTree) (path : Path) (instant : Instant) : Except Fault FileTree :=
  if path.text.contains '\x00' then .error .nulInTimedPath
  else
    match tree.locate path with
    | .error fault => .error fault
    | .ok location =>
      match tree.file? location with
      | some file => .ok (tree.put location (.file { file with modified := instant }))
      | none => .ok (tree.stampDirectory location instant)

/-- Why what a path that ends in dots names cannot be removed: the directory that holds its last
step is missing, or else the step itself is a directory. -/
def refuseDirectory (tree : FileTree) (path : Path) : Fault :=
  match tree.placeOfSteps .target path path.holderSteps with
  | .error fault => fault
  | .ok _ => .isADirectory

/-- Remove the file or link at a path. A link at the end is removed itself. -/
def removeFile (tree : FileTree) (path : Path) : Except Fault FileTree :=
  match path.ending with
  | .dots => .error (tree.refuseDirectory path)
  | .name =>
    match tree.place .entry path with
    | .error fault => .error fault
    | .ok (.vacant _) => .error .notFound
    | .ok (.found location) =>
      if tree.isDirectoryAt location then .error .isADirectory else .ok (tree.drop location)
  | .slashed =>
    match tree.placeOfSteps .entry path path.solidSteps with
    | .error fault => .error fault
    | .ok (.vacant _) => .error .notFound
    | .ok (.found location) =>
      if tree.isDirectoryAt location then .error .isADirectory else .error .notADirectory

end FileTree

end AssetPipeline
