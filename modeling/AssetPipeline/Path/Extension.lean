/-
This file swaps the extension of a path. The extension is what stands behind the last dot of the
file name, provided something stands in front of that dot; the stem is the rest of the name. A
path without a file name keeps its text.
-/

import AssetPipeline.Path.Basic

namespace AssetPipeline.Path

/-- A file name cut at its last dot. -/
structure SplitName where
  stem : Text
  extension? : Option Text
  deriving DecidableEq

/-- Cut a file name at its last dot. A dot at the front begins no extension. -/
def splitName (name : Name) : SplitName :=
  let extension := (name.reverse.takeWhile (· != '.')).reverse
  match (name.reverse.dropWhile (· != '.')).reverse.dropLast with
  | [] => ⟨name, none⟩
  | stem => ⟨stem, some extension⟩

/-- The file name without its extension. -/
def stem? (path : Path) : Option Text := path.fileName?.map fun name => (splitName name).stem

/-- The path with another last segment; idle segments behind it are dropped. -/
def withLastSegment (path : Path) (segment : Text) : Path :=
  ofSegments path.lead (path.namedSegments.dropLast ++ [segment])

/-- A dot and the extension; nothing at all for the empty extension. -/
def extensionText (extension : Text) : Text :=
  if extension = [] then [] else '.' :: extension

/-- The path with its extension replaced, or added when it has none.

The old extension is cut off before the new one is put on. From a name such as `..wav` that
leaves `..`, which is not a file name and takes no extension, so the path ends in `..`. -/
def withExtension (path : Path) (extension : Text) : Path :=
  match path.fileName? with
  | none => path
  | some name =>
    let stem := (splitName name).stem
    if stem = dot ∧ path.segments.getLast? = some name then path.withLastSegment dotDot
    else path.withLastSegment (stem ++ extensionText extension)

end AssetPipeline.Path
