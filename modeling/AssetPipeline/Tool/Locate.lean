/-
This file finds the external tools. A file in the tools directory comes first, whether or not it
can be executed; then an executable of that name, looked up from the working directory when the
name has several components and in the search path otherwise. When neither is there the answer
is the place in the tools directory, so that the failure to launch it names it.
-/

import AssetPipeline.FileTree.Lookup
import AssetPipeline.Tool.Layout

namespace AssetPipeline

namespace FileTree

/-- Is there a regular file that its owner may execute? -/
def isExecutable (tree : FileTree) (path : Path) : Bool :=
  match tree.fileAt? path with
  | some file => file.mode.ownerExecutes
  | none => false

def componentText : Component → Text
  | .root => [Path.separator]
  | .here => Path.dot
  | .up => Path.dotDot
  | .name name => name

/-- The path from the root of what a relative path names from the working directory. A dot in
front of a relative path adds nothing. -/
def absolute (tree : FileTree) (path : Path) : Path :=
  if path.isAbsolute then path
  else (path.components.filter (· != .here)).foldl
    (fun base component => base.child (componentText component)) tree.workingDirectory.path

/-- The places where an executable of this name may be. -/
def executablePlaces (tree : FileTree) (searchPath : List Path) (name : Text) : List Path :=
  let path : Path := ⟨name⟩
  if 1 < path.components.length then [tree.absolute path]
  else searchPath.map (·.join path)

/-- The first executable of this name. -/
def findExecutable? (tree : FileTree) (searchPath : List Path) (name : Text) : Option Path :=
  (tree.executablePlaces searchPath name).find? tree.isExecutable

end FileTree

namespace Layout

/-- Where a tool of this name is. -/
def placeOf (layout : Layout) (tree : FileTree) (name : Text) : Path :=
  let bundled := layout.toolsRoot.join ⟨name⟩
  if tree.isFile bundled then bundled
  else (tree.findExecutable? layout.searchPath name).getD bundled

end Layout

end AssetPipeline
