/-
This file makes directories, one at a time and with all the directories above. A directory that
could be made stays when one below it could not, so making several answers with the tree and the
outcome apart.
-/

import AssetPipeline.FileTree.Files

namespace AssetPipeline.FileTree

def makeDirectory (tree : FileTree) (path : Path) : Except Fault FileTree :=
  if path.ending = .dots then
    match tree.placeOfSteps .target path path.holderSteps with
    | .error fault => .error fault
    | .ok _ => .error .alreadyExists
  else
    match tree.placeOfSteps .entry path path.solidSteps with
    | .error fault => .error fault
    | .ok (.found _) => .error .alreadyExists
    | .ok (.vacant location) => .ok (tree.put location .directory)

/-- Make the first directory of a list that ends in the directories above it. Only when it has
no directory to be made in are those above made first. -/
def makeFirst (tree : FileTree) : List Path → FileTree × Except Fault Unit
  | [] => (tree, .error .rootNotMade)
  | path :: above =>
    if path.text = [] then (tree, .ok ())
    else
      match tree.makeDirectory path with
      | .ok made => (made, .ok ())
      | .error .notFound =>
        match makeFirst tree above with
        | (tried, .error fault) => (tried, .error fault)
        | (tried, .ok ()) =>
          match tried.makeDirectory path with
          | .ok made => (made, .ok ())
          | .error fault =>
            if tried.isDirectory path then (tried, .ok ()) else (tried, .error fault)
      | .error fault => if tree.isDirectory path then (tree, .ok ()) else (tree, .error fault)

/-- Make a directory and the directories above it that are missing. -/
def makeDirectories (tree : FileTree) (path : Path) : FileTree × Except Fault Unit :=
  tree.makeFirst path.ancestors

end AssetPipeline.FileTree
