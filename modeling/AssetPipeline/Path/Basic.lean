/-
This file holds paths: the text of a path, kept as it was written, and the components it names.

A path is printed as stored, so a doubled separator or a `.` in the middle stays in the text; the
components leave it out. A path's text splits into a lead, which is the root separator of an
absolute path or a `.` at the very front, and the segments after it, cut at every separator. A
segment that is empty or `.` names nothing; `..` names the directory above; any other segment is
a name. `parent`, `fileName` and `below?` cut the text between segments, never inside one.
-/

import AssetPipeline.Text.Basic

namespace AssetPipeline

/-- The name of an entry in a directory. -/
abbrev Name := Text

/-- A path, as written. -/
structure Path where
  text : Text
  deriving DecidableEq

/-- One component of a path. -/
inductive Component where
  /-- The separator an absolute path begins with. -/
  | root
  /-- A `.` at the very front. -/
  | here
  | up
  /-- An entry's name. -/
  | name (name : Name)
  deriving DecidableEq

namespace Path

def ofString (string : String) : Path := ⟨string.toList⟩

instance : ToString Path := ⟨fun path => String.ofList path.text⟩

/-- The character between components. -/
def separator : Char := '/'

/-- The segment that stays where it is. -/
def dot : Text := ['.']

/-- The segment that goes to the directory above. -/
def dotDot : Text := ['.', '.']

/-- Does the path begin at the root? -/
def isAbsolute (path : Path) : Bool := path.text.head? == some separator

/-- The part of the text in front of the segments: the root separator, or a leading `.`. -/
def lead (path : Path) : Text :=
  match path.text with
  | '/' :: _ => [separator]
  | '.' :: '/' :: _ => dot
  | ['.'] => dot
  | _ => []

/-- The segments behind the lead. -/
def segments (path : Path) : List Text :=
  Text.splitOn separator (path.text.drop path.lead.length)

/-- A segment that names nothing. -/
def isIdle (segment : Text) : Bool := segment == [] || segment == dot

/-- The component a segment names, if any. -/
def componentOf? (segment : Text) : Option Component :=
  if isIdle segment then none
  else if segment = dotDot then some .up
  else some (.name segment)

/-- The component of the lead, if there is a lead. -/
def leadComponents (path : Path) : List Component :=
  if path.lead = [] then [] else if path.isAbsolute then [.root] else [.here]

/-- The components of the path, in order. -/
def components (path : Path) : List Component :=
  path.leadComponents ++ path.segments.filterMap componentOf?

/-- Without the idle segments at the end. -/
def trimIdle (segments : List Text) : List Text :=
  (segments.reverse.dropWhile isIdle).reverse

/-- The segments up to the last one that names something. -/
def namedSegments (path : Path) : List Text := trimIdle path.segments

def ofSegments (lead : Text) (segments : List Text) : Path :=
  ⟨lead ++ Text.joinWith separator segments⟩

/-- The path without its last component. The root and the empty path have no parent. -/
def parent? (path : Path) : Option Path :=
  match path.namedSegments with
  | [] => if path.lead = dot then some ⟨[]⟩ else none
  | segments => some (ofSegments path.lead (trimIdle segments.dropLast))

/-- The name at the end of the path, if the path ends in a name. -/
def fileName? (path : Path) : Option Name :=
  match path.namedSegments.getLast? with
  | none => none
  | some segment => if segment = dotDot then none else some segment

/-- The path that `path` leads to from `base`. An absolute path stands for itself. -/
def join (base path : Path) : Path :=
  if path.isAbsolute || base.text == [] then path
  else if base.text.getLast? = some separator then ⟨base.text ++ path.text⟩
  else ⟨base.text ++ separator :: path.text⟩

/-- The entry `name` of the directory `base`. -/
def child (base : Path) (name : Name) : Path := base.join ⟨name⟩

/-- Drop segments from the front until `count` of those dropped name something. -/
def dropNamed : Nat → List Text → List Text
  | 0, segments => segments
  | _ + 1, [] => []
  | count + 1, segment :: rest =>
    if isIdle segment then dropNamed (count + 1) rest else dropNamed count rest

/-- The rest of the path behind `base`, when the components of `base` begin it. The rest starts
and ends with a segment that names something, unless nothing was taken off. -/
def below? (path base : Path) : Option Path :=
  if base.components.isPrefixOf path.components then
    if base.components = [] then some (ofSegments path.lead path.namedSegments)
    else
      let taken := base.components.length - path.leadComponents.length
      some (ofSegments [] (trimIdle ((dropNamed taken path.segments).dropWhile isIdle)))
  else none

/-- The path followed by its parents, the nearest first, down to one without a parent. -/
def ancestorsWithin : Nat → Path → List Path
  | 0, path => [path]
  | fuel + 1, path =>
    match path.parent? with
    | none => [path]
    | some parent => path :: ancestorsWithin fuel parent

/-- The path followed by its parents. A path has fewer parents than characters. -/
def ancestors (path : Path) : List Path := ancestorsWithin path.text.length path

/-! ### Order -/

/-- The place of a component in the order of components: the root first, then a leading `.`,
then `..`, then the names, by their characters. -/
def rank : Component → List Nat
  | .root => [0]
  | .here => [1]
  | .up => [2]
  | .name name => 3 :: name.map Char.toNat

/-- Paths are compared component by component, and components by their places. -/
def order (first second : Path) : Ordering :=
  List.compareLex (List.compareLex compare) (first.components.map rank)
    (second.components.map rank)

/-- Does `first` stand before `second`, or level with it? -/
def notAfter (first second : Path) : Bool := (order first second).isLE

/-- The paths in component order. -/
def sorted (paths : List Path) : List Path := paths.mergeSort notAfter

theorem notAfter_trans (first second third : Path) (before : notAfter first second = true)
    (after : notAfter second third = true) : notAfter first third = true := by
  unfold notAfter order at *
  exact Std.TransCmp.isLE_trans before after

theorem order_eq_swap (first second : Path) : order first second = (order second first).swap := by
  unfold order
  exact Std.OrientedCmp.eq_swap

theorem notAfter_total (first second : Path) :
    (notAfter first second || notAfter second first) = true := by
  unfold notAfter
  rw [order_eq_swap first second]
  cases order second first <;> rfl

theorem sorted_pairwise (paths : List Path) :
    (sorted paths).Pairwise fun first second => notAfter first second = true :=
  List.pairwise_mergeSort notAfter_trans notAfter_total paths

theorem mem_sorted {path : Path} {paths : List Path} : path ∈ sorted paths ↔ path ∈ paths :=
  List.mem_mergeSort

end Path

end AssetPipeline
