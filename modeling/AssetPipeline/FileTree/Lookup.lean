/-
This file finds the place a path leads to. The path's steps are taken one after the other from
the working directory, or from the root for an absolute path. Every step needs a directory to be
taken from. A link met on the way is replaced by its target; what happens at the very end depends
on what the path is looked up for. No more than forty links are followed for one path.
-/

import AssetPipeline.FileTree.Basic
import AssetPipeline.FileTree.Fault

namespace AssetPipeline

namespace Path

/-- The texts between the separators, each a step of the way. -/
def steps (path : Path) : List Text := Text.splitOn separator path.text

end Path

/-- What a path is looked up for. -/
inductive Aim where
  /-- What the path leads to, with every link followed. -/
  | target
  /-- The last entry itself, be it a link. -/
  | entry
  /-- A file that is made if it is missing. Its name may not be followed by a separator, not even
  in the target of a link. -/
  | newFile
  deriving DecidableEq

/-- Where a path leads. -/
inductive Place where
  /-- Something stands there. -/
  | found (location : Location)
  /-- Nothing stands there, in a directory that exists. -/
  | vacant (location : Location)
  deriving DecidableEq

namespace FileTree

/-- The longest name of an entry, in bytes. -/
def longestName : Nat := 255

/-- A path of this many bytes is too long. -/
def pathLimit : Nat := 4096

/-- The number of links that may be followed for one path. -/
def linkLimit : Nat := 40

/-- Take steps from a location. `onLink` goes on from a location with the steps of a link's
target in front of the rest. -/
def takeSteps (tree : FileTree) (aim : Aim)
    (onLink : Location → List Text → Except Fault Place) :
    Location → List Text → Except Fault Place
  | location, [] => .ok (.found location)
  | location, step :: rest =>
    if ¬ tree.isDirectoryAt location then .error .notADirectory
    else if Path.isIdle step then takeSteps tree aim onLink location rest
    else if step = Path.dotDot then takeSteps tree aim onLink location.dropLast rest
    else if aim = .newFile ∧ rest ≠ [] ∧ rest.all (· == []) = true then .error .isADirectory
    else if longestName < step.byteLength then .error .nameTooLong
    else
      match tree.node? (location.child step) with
      | none => if rest = [] then .ok (.vacant (location.child step)) else .error .notFound
      | some (.link target) =>
        if rest = [] ∧ aim = .entry then .ok (.found (location.child step))
        else onLink (if target.isAbsolute then [] else location) (target.steps ++ rest)
      | some _ => takeSteps tree aim onLink (location.child step) rest

/-- Take steps from a location, following at most `links` links. -/
def follow (tree : FileTree) (aim : Aim) : Nat → Location → List Text → Except Fault Place
  | 0 => takeSteps tree aim fun _ _ => .error .tooManyLinks
  | links + 1 => takeSteps tree aim (follow tree aim links)

/-- Where the steps of a path start. -/
def startOf (tree : FileTree) (path : Path) : Location :=
  if path.isAbsolute then [] else tree.workingDirectory

/-- Where these steps of `path` lead. A path that is empty, too long or not a name the system
can be given leads nowhere. -/
def placeOfSteps (tree : FileTree) (aim : Aim) (path : Path) (steps : List Text) :
    Except Fault Place :=
  if path.text.contains '\x00' then .error .nulInPath
  else if path.text = [] then .error .notFound
  else if pathLimit ≤ path.text.byteLength then .error .nameTooLong
  else tree.follow aim linkLimit (tree.startOf path) steps

/-- Where a path leads. -/
def place (tree : FileTree) (aim : Aim) (path : Path) : Except Fault Place :=
  tree.placeOfSteps aim path path.steps

/-- The location of what stands at a path, with every link followed. -/
def locate (tree : FileTree) (path : Path) : Except Fault Location :=
  match tree.place .target path with
  | .error fault => .error fault
  | .ok (.vacant _) => .error .notFound
  | .ok (.found location) => .ok location

/-- What stands at a path, with every link followed. -/
def lookup (tree : FileTree) (path : Path) : Except Fault Node :=
  match tree.locate path with
  | .error fault => .error fault
  | .ok location =>
    match tree.node? location with
    | none => .error .notFound
    | some node => .ok node

def isDirectory (tree : FileTree) (path : Path) : Bool :=
  match tree.lookup path with
  | .ok .directory => true
  | _ => false

/-- The regular file a path leads to. -/
def fileAt? (tree : FileTree) (path : Path) : Option File :=
  match tree.lookup path with
  | .ok (.file file) => some file
  | _ => none

/-- Does the path lead to a regular file? -/
def isFile (tree : FileTree) (path : Path) : Bool := (tree.fileAt? path).isSome

end FileTree

end AssetPipeline
