/-
This file resolves a wildcard parameter to a set of files.

A parameter such as `sfx/ui/*.wav` is cut behind its last separator, which may be a slash or a
backslash. The part in front narrows the directory to search, the part behind is matched against
the name of every regular file at any depth below. The files are given relative to the root, in
component order.
-/

import AssetPipeline.Build.Failure
import AssetPipeline.Selection.Wildcard

namespace AssetPipeline

/-- A wildcard parameter: the directory part with its last separator, and the pattern. -/
structure Selection where
  directory : Text
  pattern : Text
  deriving DecidableEq

namespace Selection

/-- The two characters that separate the components of a wildcard parameter. -/
def isSeparator (character : Char) : Bool := character == '/' || character == '\\'

/-- A wildcard parameter, cut behind its last separator. -/
def ofWildcard (wildcard : Text) : Selection where
  directory := (wildcard.reverse.dropWhile (!isSeparator ·)).reverse
  pattern := (wildcard.reverse.takeWhile (!isSeparator ·)).reverse

/-- Nothing is lost by the cut. -/
theorem directory_append_pattern (wildcard : Text) :
    (ofWildcard wildcard).directory ++ (ofWildcard wildcard).pattern = wildcard := by
  simp only [ofWildcard, ← List.reverse_append, List.takeWhile_append_dropWhile,
    List.reverse_reverse]

/-- The names in the directory part. -/
def directoryNames (selection : Selection) : List Name :=
  (Text.splitWhere isSeparator selection.directory).filter (· != [])

/-- The directory to search below `root`. -/
def base (selection : Selection) (root : Path) : Path :=
  selection.directoryNames.foldl Path.child root

/-- Does the file at a path belong to the set? Only its name counts. -/
def selects (selection : Selection) (path : Path) : Bool :=
  Wildcard.accept selection.pattern (path.fileName?.getD path.text)

/-- The files a wildcard parameter stands for, relative to the root. The root and the directory
to search have to exist, and the walk has to succeed. -/
def members (tree : FileTree) (root : Path) (wildcard : Text) :
    Except CommandFailure (List Path) :=
  let selection := ofWildcard wildcard
  let searched := selection.base root
  match tree.lookup root with
  | .error fault => .error (.unsearchable root fault)
  | .ok _ =>
    match tree.locate searched with
    | .error fault => .error (.unsearchable searched fault)
    | .ok location =>
      match tree.walk searched location with
      | .error error => .error (.unlisted error)
      | .ok files => .ok (Path.sorted ((files.filter selection.selects).filterMap (·.below? root)))

end Selection

end AssetPipeline
