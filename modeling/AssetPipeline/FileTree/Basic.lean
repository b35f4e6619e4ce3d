/-
This file holds the file tree: what stands at each location.

A location is the list of names from the root down, with nothing left to resolve. The tree is a
list of located nodes, the newest first; the root itself is always a directory. `node?` is the
view of the tree: what each change does is said by what `node?` answers afterwards. A tree also
knows the directory that relative paths start from, the time that a written file gets, the times
that directories were given, and the directories that may not be listed. A directory keeps the time
it was given until an entry of it comes or goes.

Everything belongs to the user who runs the programs. Of the mode of a directory the tree knows
whether its owner may list it; directories can be entered, and entries made in them and removed,
always. There is room for whatever is written, and no device fails.
-/

import AssetPipeline.Path.Basic

namespace AssetPipeline

/-- A point in time: seconds since 1970, and nanoseconds within the second. -/
structure Instant where
  seconds : Int
  nanoseconds : Nat
  deriving DecidableEq, Inhabited

namespace Instant

/-- Is `first` no later than `second`? -/
def notAfter (first second : Instant) : Bool :=
  first.seconds < second.seconds ||
    (first.seconds == second.seconds && first.nanoseconds ≤ second.nanoseconds)

theorem notAfter_iff {first second : Instant} :
    notAfter first second = true ↔ first.seconds < second.seconds ∨
      (first.seconds = second.seconds ∧ first.nanoseconds ≤ second.nanoseconds) := by
  simp [notAfter]

theorem notAfter_refl (instant : Instant) : notAfter instant instant = true := by
  simp [notAfter_iff]

theorem notAfter_trans {first second third : Instant} (before : notAfter first second = true)
    (after : notAfter second third = true) : notAfter first third = true := by
  simp only [notAfter_iff] at *
  omega

theorem notAfter_antisymm {first second : Instant} (before : notAfter first second = true)
    (after : notAfter second first = true) : first = second := by
  simp only [notAfter_iff] at before after
  obtain ⟨seconds, nanoseconds⟩ := first
  obtain ⟨otherSeconds, otherNanoseconds⟩ := second
  rw [mk.injEq]
  dsimp only at before after
  omega

theorem notAfter_total (first second : Instant) :
    notAfter first second = true ∨ notAfter second first = true := by
  simp only [notAfter_iff]
  omega

end Instant

/-- The mode bits of a file. -/
structure Mode where
  bits : Nat
  deriving DecidableEq, Inhabited

namespace Mode

/-- May the owner read? -/
def ownerReads (mode : Mode) : Bool := mode.bits.testBit 8

/-- May the owner write? -/
def ownerWrites (mode : Mode) : Bool := mode.bits.testBit 7

/-- May the owner execute? -/
def ownerExecutes (mode : Mode) : Bool := mode.bits.testBit 6

/-- The mode of a file created without a wish of its own: the owner writes, all read. -/
def ordinary : Mode := ⟨0o644⟩

end Mode

/-- A regular file. -/
structure File where
  content : Bytes
  modified : Instant
  mode : Mode
  deriving DecidableEq

/-- What stands at a location. -/
inductive Node where
  | file (file : File)
  | directory
  | link (target : Path)
  deriving DecidableEq

/-- Names from the root down. -/
abbrev Location := List Name

namespace Location

/-- The location of an entry of a directory. -/
def child (location : Location) (name : Name) : Location := location ++ [name]

/-- The absolute path of a location. -/
def path (location : Location) : Path :=
  ⟨Path.separator :: Text.joinWith Path.separator location⟩

end Location

/-- A file tree, the directory relative paths start from, the present, the times of directories, and
those that may not be listed. -/
structure FileTree where
  /-- What stands where, the newest first. -/
  nodes : List (Location × Node)
  /-- Where relative paths start. -/
  workingDirectory : Location
  /-- The time a written file gets. -/
  clock : Instant
  /-- The times of modification that directories were given. -/
  directoryTimes : List (Location × Instant) := []
  /-- The directories that their owner may not list. -/
  closed : List Location := []
  deriving DecidableEq

namespace FileTree

/-- The first node listed for a location. -/
def find? (location : Location) : List (Location × Node) → Option Node
  | [] => none
  | (place, node) :: rest => if place = location then some node else find? location rest

/-- What stands at a location. The root is always a directory. -/
def node? (tree : FileTree) (location : Location) : Option Node :=
  if location = [] then some .directory else find? location tree.nodes

/-- The regular file at a location. -/
def file? (tree : FileTree) (location : Location) : Option File :=
  match tree.node? location with
  | some (.file file) => some file
  | _ => none

/-- Does a directory stand there? -/
def isDirectoryAt (tree : FileTree) (location : Location) : Bool :=
  tree.node? location == some .directory

/-- Does a directory stand there that may not be listed? -/
def isClosedAt (tree : FileTree) (location : Location) : Bool :=
  tree.isDirectoryAt location && tree.closed.contains location

/-- The times of directories once an entry has come to `location`, or gone from there. -/
def timesWithout (tree : FileTree) (location : Location) : List (Location × Instant) :=
  tree.directoryTimes.filter fun entry => entry.1 != location && entry.1 != location.dropLast

/-- The tree with `node` at `location`, whatever stood there. A directory that is new may be
listed. -/
def put (tree : FileTree) (location : Location) (node : Node) : FileTree :=
  { tree with
    nodes := (location, node) :: tree.nodes.filter (·.1 != location)
    directoryTimes :=
      if (tree.node? location).isSome then tree.directoryTimes else tree.timesWithout location
    closed :=
      if tree.isDirectoryAt location then tree.closed
      else tree.closed.filter (· != location) }

def drop (tree : FileTree) (location : Location) : FileTree :=
  { tree with
    nodes := tree.nodes.filter (·.1 != location)
    directoryTimes := tree.timesWithout location
    closed := tree.closed.filter (· != location) }

/-- The tree with a directory that was given a time of modification. -/
def stampDirectory (tree : FileTree) (location : Location) (instant : Instant) : FileTree :=
  { tree with
    directoryTimes := (location, instant) :: tree.directoryTimes.filter (·.1 != location) }

/-- The names in a directory, the newest first. -/
def names (tree : FileTree) (location : Location) : List Name :=
  tree.nodes.filterMap fun (place, _) =>
    if place.dropLast = location then place.getLast? else none

/-! ### What the changes do to the view -/

theorem find?_filter_ne {location other : Location} (differ : other ≠ location)
    (nodes : List (Location × Node)) :
    find? other (nodes.filter (·.1 != location)) = find? other nodes := by
  induction nodes with
  | nil => rfl
  | cons head rest inductionHypothesis =>
    obtain ⟨place, node⟩ := head
    by_cases same : place = location
    · subst same
      simp [find?, inductionHypothesis, Ne.symm differ]
    · simp [same, find?, inductionHypothesis]

theorem find?_filter_self (location : Location) (nodes : List (Location × Node)) :
    find? location (nodes.filter (·.1 != location)) = none := by
  induction nodes with
  | nil => rfl
  | cons head rest inductionHypothesis =>
    obtain ⟨place, node⟩ := head
    by_cases same : place = location
    · simp [same, inductionHypothesis]
    · simp [same, find?, inductionHypothesis]

theorem node?_put_self (tree : FileTree) {location : Location} (below : location ≠ [])
    (node : Node) : (tree.put location node).node? location = some node := by
  simp [node?, put, find?, below]

theorem node?_put_of_ne (tree : FileTree) {location other : Location} (differ : other ≠ location)
    (node : Node) : (tree.put location node).node? other = tree.node? other := by
  simp [node?, put, find?, Ne.symm differ, find?_filter_ne differ]

theorem node?_drop_self (tree : FileTree) {location : Location} (below : location ≠ []) :
    (tree.drop location).node? location = none := by
  simp [node?, drop, below, find?_filter_self]

theorem node?_drop_of_ne (tree : FileTree) {location other : Location} (differ : other ≠ location) :
    (tree.drop location).node? other = tree.node? other := by
  simp [node?, drop, find?_filter_ne differ]

theorem isDirectoryAt_put_of_ne (tree : FileTree) {location other : Location}
    (differ : other ≠ location) (node : Node) :
    (tree.put location node).isDirectoryAt other = tree.isDirectoryAt other := by
  simp [isDirectoryAt, node?_put_of_ne tree differ]

/-- No directory is closed or opened by what is put, as long as a directory stays one. -/
theorem isClosedAt_put (tree : FileTree) {location : Location} {node : Node}
    (below : location ≠ []) (stays : tree.isDirectoryAt location = true → node = .directory)
    (place : Location) : (tree.put location node).isClosedAt place = tree.isClosedAt place := by
  cases before : tree.isDirectoryAt location with
  | true =>
    have kept : (tree.put location node).closed = tree.closed := by simp [put, before]
    unfold isClosedAt
    rw [kept]
    by_cases same : place = location
    · subst same
      rw [before, isDirectoryAt, node?_put_self tree below, stays before]
      rfl
    · rw [isDirectoryAt_put_of_ne tree same]
  | false =>
    have kept : (tree.put location node).closed = tree.closed.filter (· != location) := by
      simp [put, before]
    unfold isClosedAt
    by_cases same : place = location
    · subst same
      simp [kept, before]
    · rw [isDirectoryAt_put_of_ne tree same]
      simp [kept, same]

/-- Nor by what is taken away, unless it is a directory. -/
theorem isClosedAt_drop (tree : FileTree) {location : Location}
    (leaf : tree.isDirectoryAt location = false) (place : Location) :
    (tree.drop location).isClosedAt place = tree.isClosedAt place := by
  unfold isClosedAt
  by_cases same : place = location
  · subst same
    simp [drop, leaf]
  · have there : (tree.drop location).isDirectoryAt place = tree.isDirectoryAt place := by
      simp [isDirectoryAt, node?_drop_of_ne tree same]
    rw [there]
    simp [drop, same]

end FileTree

end AssetPipeline
