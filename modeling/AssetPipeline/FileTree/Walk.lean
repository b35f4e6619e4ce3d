/-
This file lists the regular files at and below a location, links followed.

A directory's entries are listed in the order the tree has them, so the order of the answer
means nothing; callers sort. The walk stops at the first entry that cannot be followed, a link that
leads nowhere or a link to a directory that the walk is already in, and at the first directory that
may not be listed. Directories met without a link cannot repeat for ever: a walk goes at most as
deep as the tree between two links, and each link leads to a directory the walk is not yet in.
-/

import AssetPipeline.FileTree.Lookup

namespace AssetPipeline

/-- Why a walk stopped. -/
inductive WalkError where
  /-- An entry could not be followed, or a directory could not be listed. -/
  | unreadable (path : Path) (fault : Fault)
  /-- A link leads back to a directory the walk is in. -/
  | loop (child ancestor : Path)
  deriving DecidableEq

namespace WalkError

/-- The words for why a walk stopped. -/
def message : WalkError → String
  | .unreadable path fault => s!"IO error for operation on {path}: {fault}"
  | .loop child ancestor => s!"File system loop found: {child} points to an ancestor {ancestor}"

instance : ToString WalkError := ⟨message⟩

end WalkError

/-- A directory that a walk is in: where it is, and the path the walk came by. -/
structure Visited where
  location : Location
  path : Path

namespace FileTree

/-- All answers in one list, or the first error. -/
def gather {Error Item : Type} : List (Except Error (List Item)) → Except Error (List Item)
  | [] => .ok []
  | .error error :: _ => .error error
  | .ok items :: rest =>
    match gather rest with
    | .error error => .error error
    | .ok more => .ok (items ++ more)

/-- The location an entry stands for: that of a file is its own, links are followed, and links
and directories have to be within reach of the path the walk came by. -/
def resolveEntry (tree : FileTree) (location : Location) (path : Path) : Except Fault Location :=
  match tree.node? location with
  | some (.file _) => .ok location
  | _ => tree.locate path

def isLinkAt (tree : FileTree) (location : Location) : Bool :=
  match tree.node? location with
  | some (.link _) => true
  | _ => false

/-- The paths of the regular files at and below `location`, reached as `path`, inside the
directories `inside`, the innermost first. -/
def filesBelow (tree : FileTree) :
    Nat → List Visited → Path → Location → Except WalkError (List Path)
  | 0, _, _, _ => .ok []
  | fuel + 1, inside, path, location =>
    match tree.node? location with
    | some (.file _) => .ok [path]
    | some .directory =>
      if tree.isClosedAt location then .error (.unreadable path .permissionDenied)
      else
        let here := ⟨location, path⟩ :: inside
        gather ((tree.names location).map fun name =>
          let entry := location.child name
          let entryPath := path.child name
          match tree.resolveEntry entry entryPath with
          | .error fault => .error (.unreadable entryPath fault)
          | .ok place =>
            match here.find? fun visited =>
                tree.isLinkAt entry && tree.isDirectoryAt place && visited.location == place with
            | some ancestor => .error (.loop entryPath ancestor.path)
            | none => filesBelow tree fuel here entryPath place)
    | _ => .ok []

/-- The length of the longest location. -/
def depth (tree : FileTree) : Nat :=
  (tree.nodes.map fun (location, _) => location.length).foldr max 0

/-- More levels than any walk goes down: between two links no more than the depth of the tree,
and no more links than directories. -/
def walkBound (tree : FileTree) : Nat := (tree.nodes.length + 2) * (tree.depth + 2)

/-- The regular files at and below `path`, which leads to `location`. -/
def walk (tree : FileTree) (path : Path) (location : Location) : Except WalkError (List Path) :=
  tree.filesBelow tree.walkBound [] path location

end FileTree

end AssetPipeline
