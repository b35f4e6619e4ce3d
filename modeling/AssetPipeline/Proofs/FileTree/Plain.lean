/-
This file says what a file tree is like that a file system can hold. No location is listed twice,
names are names, and whatever stands somewhere stands in a directory. A tree is plain when it
holds no link besides. The changes that the operations make keep a tree plain: a node may be put
where its directory exists, if a directory that is replaced stays one, and anything but a
directory may be dropped.
-/

import AssetPipeline.FileTree.Walk
import AssetPipeline.Proofs.Path.Location
import Mathlib.Data.List.Induction

namespace AssetPipeline.FileTree

/-- A tree that a file system can hold. -/
structure Sound (tree : FileTree) : Prop where
  /-- Every location is listed once. -/
  distinct : (tree.nodes.map (·.1)).Nodup
  /-- Names are names. -/
  named : ∀ entry ∈ tree.nodes, ∀ name ∈ entry.1, IsEntry name
  /-- Every entry stands in a directory. -/
  housed : ∀ entry ∈ tree.nodes, entry.1 ≠ [] ∧ tree.isDirectoryAt entry.1.dropLast = true

/-- A tree that a file system can hold, without links. -/
structure Plain (tree : FileTree) : Prop extends Sound tree where
  linkless : ∀ entry ∈ tree.nodes, tree.isLinkAt entry.1 = false

theorem sound_iff {tree : FileTree} : Sound tree ↔ (tree.nodes.map (·.1)).Nodup ∧
    (∀ entry ∈ tree.nodes, ∀ name ∈ entry.1, IsEntry name) ∧
    ∀ entry ∈ tree.nodes, entry.1 ≠ [] ∧ tree.isDirectoryAt entry.1.dropLast = true :=
  ⟨fun sound => ⟨sound.distinct, sound.named, sound.housed⟩,
    fun ⟨distinct, named, housed⟩ => ⟨distinct, named, housed⟩⟩

instance (tree : FileTree) : Decidable (Sound tree) := decidable_of_iff' _ sound_iff

theorem plain_iff {tree : FileTree} :
    Plain tree ↔ Sound tree ∧ ∀ entry ∈ tree.nodes, tree.isLinkAt entry.1 = false :=
  ⟨fun plain => ⟨plain.toSound, plain.linkless⟩, fun ⟨sound, linkless⟩ => ⟨sound, linkless⟩⟩

instance (tree : FileTree) : Decidable (Plain tree) := decidable_of_iff' _ plain_iff

/-! ### The list and the view -/

theorem mem_of_find?_eq_some {location : Location} {node : Node} {nodes : List (Location × Node)}
    (found : find? location nodes = some node) : (location, node) ∈ nodes := by
  induction nodes with
  | nil => cases found
  | cons head rest inductionHypothesis =>
    obtain ⟨place, other⟩ := head
    unfold find? at found
    split at found
    · next same =>
      obtain rfl := Option.some.inj found
      exact same ▸ List.mem_cons_self
    · exact List.mem_cons_of_mem _ (inductionHypothesis found)

theorem find?_isSome_of_mem {location : Location} {node : Node} {nodes : List (Location × Node)}
    (member : (location, node) ∈ nodes) : (find? location nodes).isSome = true := by
  induction nodes with
  | nil => cases member
  | cons head rest inductionHypothesis =>
    obtain ⟨place, other⟩ := head
    unfold find?
    split
    · rfl
    · next differs =>
      rcases List.mem_cons.mp member with same | later
      · cases same
        exact absurd rfl differs
      · exact inductionHypothesis later

theorem mem_nodes_of_node? {tree : FileTree} {location : Location} {node : Node}
    (below : location ≠ []) (stands : tree.node? location = some node) :
    (location, node) ∈ tree.nodes := by
  unfold node? at stands
  rw [if_neg below] at stands
  exact mem_of_find?_eq_some stands

theorem node?_isSome_of_mem {tree : FileTree} {location : Location} {node : Node}
    (member : (location, node) ∈ tree.nodes) : (tree.node? location).isSome = true := by
  unfold node?
  split
  · rfl
  · exact find?_isSome_of_mem member

theorem isDirectoryAt_iff {tree : FileTree} {location : Location} :
    tree.isDirectoryAt location = true ↔ tree.node? location = some .directory := by
  simp [isDirectoryAt]

theorem file?_eq_some_iff {tree : FileTree} {location : Location} {file : File} :
    tree.file? location = some file ↔ tree.node? location = some (.file file) := by
  unfold file?
  split <;> simp_all

theorem node?_isSome_of_file?_isSome {tree : FileTree} {location : Location}
    (found : (tree.file? location).isSome = true) : (tree.node? location).isSome = true := by
  obtain ⟨file, there⟩ := Option.isSome_iff_exists.mp found
  rw [file?_eq_some_iff.mp there]
  rfl

/-- The file at a place is decided by what stands there. -/
theorem file?_congr {tree later : FileTree} {location : Location}
    (same : later.node? location = tree.node? location) :
    later.file? location = tree.file? location := by
  unfold file?
  rw [same]

namespace Sound

variable {tree : FileTree}

theorem isEntry (sound : Sound tree) {location : Location}
    (stands : (tree.node? location).isSome = true) : ∀ name ∈ location, IsEntry name := by
  obtain ⟨node, stands⟩ := Option.isSome_iff_exists.mp stands
  by_cases root : location = []
  · subst root
    exact fun name member => nomatch member
  · exact sound.named _ (mem_nodes_of_node? root stands)

theorem isDirectoryAt_dropLast (sound : Sound tree) {location : Location}
    (stands : (tree.node? location).isSome = true) :
      tree.isDirectoryAt location.dropLast = true := by
  obtain ⟨node, stands⟩ := Option.isSome_iff_exists.mp stands
  by_cases root : location = []
  · subst root
    rfl
  · exact (sound.housed _ (mem_nodes_of_node? root stands)).2

/-- Whatever has something below it is a directory. -/
theorem isDirectoryAt_of_below (sound : Sound tree) {location below : Location}
    (some : below ≠ []) (stands : (tree.node? (location ++ below)).isSome = true) :
    tree.isDirectoryAt location = true := by
  induction below using List.reverseRecOn with
  | nil => exact absurd rfl some
  | append_singleton front last inductionHypothesis =>
    have above := sound.isDirectoryAt_dropLast stands
    rw [← List.append_assoc, List.dropLast_concat] at above
    by_cases none : front = []
    · subst none
      simpa using above
    · exact inductionHypothesis none (by rw [isDirectoryAt_iff.mp above]; rfl)

theorem isSome_of_below (sound : Sound tree) {location below : Location}
    (stands : (tree.node? (location ++ below)).isSome = true) :
    (tree.node? location).isSome = true := by
  by_cases none : below = []
  · rwa [none, List.append_nil] at stands
  · rw [isDirectoryAt_iff.mp (sound.isDirectoryAt_of_below none stands)]
    rfl

/-- Nothing stands below what is not a directory. -/
theorem eq_nil_of_leaf (sound : Sound tree) {location below : Location}
    (leaf : tree.isDirectoryAt location = false)
    (stands : (tree.node? (location ++ below)).isSome = true) : below = [] := by
  by_contra some
  rw [sound.isDirectoryAt_of_below some stands] at leaf
  cases leaf

end Sound

theorem Plain.not_link {tree : FileTree} (plain : Plain tree) {location : Location}
    {target : Path} :
    tree.node? location ≠ some (.link target) := by
  intro stands
  by_cases root : location = []
  · subst root
    cases stands
  · have linkless := plain.linkless _ (mem_nodes_of_node? root stands)
    simp [isLinkAt, stands] at linkless

/-- In a plain tree there stands a file, a directory or nothing. -/
theorem Plain.cases {tree : FileTree} (plain : Plain tree) (location : Location) :
    tree.node? location = none ∨ tree.node? location = some .directory ∨
      ∃ file, tree.node? location = some (.file file) := by
  cases stands : tree.node? location with
  | none => exact Or.inl rfl
  | some node =>
    cases node with
    | file file => exact Or.inr (Or.inr ⟨file, rfl⟩)
    | directory => exact Or.inr (Or.inl rfl)
    | link target => exact absurd stands plain.not_link

/-! ### Changes that keep a tree sound and plain -/

theorem mem_nodes_put {tree : FileTree} {location : Location} {node : Node}
    {entry : Location × Node} (member : entry ∈ (tree.put location node).nodes) :
    entry = (location, node) ∨ entry ∈ tree.nodes ∧ entry.1 ≠ location := by
  unfold put at member
  rcases List.mem_cons.mp member with same | kept
  · exact Or.inl same
  · exact Or.inr (by simpa using List.mem_filter.mp kept)

/-- Putting a node in a directory that exists keeps a tree sound. What was a directory has to stay
one, for there may be entries in it. -/
theorem Sound.put {tree : FileTree} (sound : Sound tree) {location : Location} {node : Node}
    (below : location ≠ []) (entries : ∀ name ∈ location, IsEntry name)
    (housed : tree.isDirectoryAt location.dropLast = true)
    (stays : tree.isDirectoryAt location = true → node = .directory) :
    Sound (tree.put location node) := by
  have directories : ∀ place, tree.isDirectoryAt place = true →
      (tree.put location node).isDirectoryAt place = true := by
    intro place directory
    rw [isDirectoryAt_iff] at directory ⊢
    by_cases same : place = location
    · subst same
      rw [node?_put_self tree below, stays (isDirectoryAt_iff.mpr directory)]
    · rw [node?_put_of_ne tree same, directory]
  refine ⟨?_, ?_, ?_⟩
  · show (location :: (tree.nodes.filter (·.1 != location)).map (·.1)).Nodup
    refine List.nodup_cons.mpr ⟨fun member => ?_, sound.distinct.sublist ?_⟩
    · obtain ⟨entry, kept, same⟩ := List.mem_map.mp member
      simp [same] at kept
    · exact List.filter_sublist.map _
  · intro entry member
    rcases mem_nodes_put member with rfl | ⟨kept, -⟩
    · exact entries
    · exact sound.named entry kept
  · intro entry member
    rcases mem_nodes_put member with rfl | ⟨kept, -⟩
    · exact ⟨below, directories _ housed⟩
    · exact ⟨(sound.housed entry kept).1, directories _ (sound.housed entry kept).2⟩

/-- Putting anything but a link keeps a tree plain, where it keeps it sound. -/
theorem Plain.put {tree : FileTree} (plain : Plain tree) {location : Location} {node : Node}
    (below : location ≠ []) (entries : ∀ name ∈ location, IsEntry name)
    (housed : tree.isDirectoryAt location.dropLast = true)
    (linkless : ∀ target, node ≠ .link target)
    (stays : tree.isDirectoryAt location = true → node = .directory) :
    Plain (tree.put location node) := by
  refine ⟨plain.toSound.put below entries housed stays, fun entry member => ?_⟩
  unfold isLinkAt
  rcases mem_nodes_put member with rfl | ⟨kept, differs⟩
  · rw [node?_put_self tree below]
    split
    · next target same => exact absurd (Option.some.inj same) (linkless target)
    · rfl
  · rw [node?_put_of_ne tree differs]
    exact plain.linkless entry kept

theorem mem_nodes_drop {tree : FileTree} {location : Location} {entry : Location × Node}
    (member : entry ∈ (tree.drop location).nodes) : entry ∈ tree.nodes ∧ entry.1 ≠ location := by
  simpa using List.mem_filter.mp member

/-- Dropping anything but a directory keeps a tree sound. -/
theorem Sound.drop {tree : FileTree} (sound : Sound tree) {location : Location}
    (leaf : tree.isDirectoryAt location = false) : Sound (tree.drop location) where
  distinct := sound.distinct.sublist (List.filter_sublist.map _)
  named entry member := sound.named entry (mem_nodes_drop member).1
  housed entry member := by
    obtain ⟨below, directory⟩ := sound.housed entry (mem_nodes_drop member).1
    refine ⟨below, ?_⟩
    have differs : entry.1.dropLast ≠ location := by
      intro same
      rw [same, leaf] at directory
      cases directory
    rw [isDirectoryAt_iff, node?_drop_of_ne tree differs]
    exact isDirectoryAt_iff.mp directory

theorem Plain.drop {tree : FileTree} (plain : Plain tree) {location : Location}
    (leaf : tree.isDirectoryAt location = false) : Plain (tree.drop location) where
  toSound := plain.toSound.drop leaf
  linkless entry member := by
    obtain ⟨kept, differs⟩ := mem_nodes_drop member
    unfold isLinkAt
    rw [node?_drop_of_ne tree differs]
    exact plain.linkless entry kept

/-- The times of directories have no part in it. -/
theorem Sound.stampDirectory {tree : FileTree} (sound : Sound tree) (location : Location)
    (instant : Instant) : Sound (tree.stampDirectory location instant) :=
  ⟨sound.distinct, sound.named, sound.housed⟩

theorem Plain.stampDirectory {tree : FileTree} (plain : Plain tree) (location : Location)
    (instant : Instant) : Plain (tree.stampDirectory location instant) :=
  ⟨plain.toSound.stampDirectory location instant, plain.linkless⟩

/-- Nor has the present any part in it. -/
theorem Plain.of_clock {tree : FileTree} (plain : Plain tree) (clock : Instant) :
    Plain { tree with clock := clock } :=
  ⟨⟨plain.distinct, plain.named, plain.housed⟩, plain.linkless⟩

end AssetPipeline.FileTree
