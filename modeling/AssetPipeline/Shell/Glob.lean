/-
This file finds the paths that match a pattern. A pattern is looked up directory by directory; in
each one its names are compared with the part of the pattern between two separators. A name that
begins with a point has to be asked for by a point.
-/

import AssetPipeline.Shell.Field
import AssetPipeline.Shell.Stream

namespace AssetPipeline.Shell

/-- The path that octets write. -/
def pathOf (octets : Text) : Path := ⟨Text.ofOctets octets⟩

namespace Glob

/-- The text without the backslashes that quote. -/
def plain : Text → Text
  | [] => []
  | '\\' :: head :: rest => head :: plain rest
  | head :: rest => head :: plain rest

/-- Does a bracket close behind at least one character? -/
def closes : Text → Bool
  | [] => false
  | '\\' :: _ :: rest => rest.head? == some ']' || closes rest
  | _ :: rest => rest.head? == some ']' || closes rest

/-- Does the text behind an opening bracket close it? -/
def isBracketed : Text → Bool
  | '!' :: rest => closes rest
  | rest => closes rest

/-- Has a part of a pattern characters with a meaning? -/
def hasMeaning : Text → Bool
  | [] => false
  | '\\' :: _ :: rest => hasMeaning rest
  | '[' :: rest => isBracketed rest || hasMeaning rest
  | head :: rest => head == '*' || head == '?' || hasMeaning rest

/-- The parts of a pattern between separators, quoted or not. -/
def parts : Text → List Text
  | [] => [[]]
  | '\\' :: head :: rest =>
    if head = '/' then [] :: parts rest
    else
      match parts rest with
      | [] => [['\\', head]]
      | part :: others => ('\\' :: head :: part) :: others
  | head :: rest =>
    if head = '/' then [] :: parts rest
    else
      match parts rest with
      | [] => [[head]]
      | part :: others => (head :: part) :: others

/-- The names in a directory, in octets; none if it may not be listed. -/
def namesIn (tree : FileTree) (directory : Text) : List Text :=
  let path := if directory.isEmpty then Path.ofString "." else pathOf directory
  match tree.locate path with
  | .error _ => []
  | .ok location =>
    if tree.isDirectoryAt location && !tree.isClosedAt location then
      Path.dot :: Path.dotDot :: (tree.names location).map Text.octets
    else []

/-- Is there something at a path? -/
def isThere (tree : FileTree) (octets : Text) : Bool :=
  match tree.place .entry (pathOf octets) with
  | .ok (.found _) => true
  | _ => false

/-- The names in a directory that a part of a pattern matches. -/
def matching (tree : FileTree) (directory part : Text) : List Text :=
  let pattern := Pattern.ofText part
  let asksForPoint := (plain part).head? == some '.'
  (namesIn tree directory).filter fun name =>
    (asksForPoint || name.head? != some '.') && pattern.accepts name

/-- The paths that begin with `front` and go on as the parts say. Nothing has been looked up as
long as not `looked`. -/
def pathsFrom (tree : FileTree) (looked : Bool) (front : Text) : List Text → List Text
  | [] => []
  | [part] =>
    if hasMeaning part then (matching tree front part).map (front ++ ·)
    else if looked && isThere tree (front ++ plain part) then [front ++ plain part]
    else []
  | part :: rest =>
    if hasMeaning part then
      (matching tree front part).flatMap fun name =>
        pathsFrom tree true (front ++ name ++ ['/']) rest
    else pathsFrom tree looked (front ++ plain part ++ ['/']) rest

/-- Does a text stand before another one, or level with it? -/
def notAfter (first second : Text) : Bool := (List.compareLex compare first second).isLE

/-- The paths that match the text of a pattern, in order. -/
def paths (tree : FileTree) (pattern : Text) : List Text :=
  (pathsFrom tree false [] (parts pattern)).mergeSort notAfter

end Glob

/-- The texts of a field: the paths it matches or, without any, itself. -/
def Field.texts (field : Field) (tree : FileTree) : List Text :=
  match Glob.paths tree (Fragment.patternText field) with
  | [] => [Fragment.text field]
  | paths => paths

end AssetPipeline.Shell
