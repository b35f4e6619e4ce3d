/-
This file compares the two ways in which a wildcard with a directory part is read. The command of
a script gets it apart from its root, cuts it behind the last separator and looks for the names
below the root. Encoding gets the path that the root and the wildcard are joined to, and takes off
its last component. Both search the same directory, by paths that make the same moves, and list
the same files in the same order. Only the idle steps at the end of a root that stands alone tell
them apart: encoding drops them, and without them a path may be short enough for the system that
is too long with them.
-/

import AssetPipeline.Proofs.Encoding.Expansion
import AssetPipeline.Proofs.FileTree.Twins
import AssetPipeline.Proofs.Selection.Members
import AssetPipeline.Proofs.Selection.Spelling

namespace AssetPipeline

namespace Path

variable {base path : Path}

/-! ### Components -/

theorem components_join (given : base.text ≠ []) (bare : path.lead = [])
    (relative : path.isAbsolute = false) :
    (base.join path).components = base.components ++ path.components := by
  rw [components_eq, components_eq, components_eq, moves_join given relative, List.map_append,
    ← List.append_assoc]
  unfold leadComponents
  rw [lead_join given relative, isAbsolute_join given relative, if_pos bare, List.nil_append]

theorem fileName?_foldl_child {front : List Name} {last : Name} (given : base.text ≠ [])
    (entries : ∀ name ∈ front ++ [last], IsEntry name) :
    ((front ++ [last]).foldl child base).fileName? = some last := by
  rw [List.foldl_concat]
  exact fileName?_child
    (text_foldl_child_ne_nil given fun name member => entries name (List.mem_append_left _ member))
    (entries last (List.mem_append_right _ (List.mem_singleton_self _)))

/-! ### Order -/

/-- Components in front that are the same do not count in the order. -/
theorem compareLex_append_left {Item : Type} {comparison : Item → Item → Ordering}
    [Std.ReflCmp comparison] (front first second : List Item) :
    List.compareLex comparison (front ++ first) (front ++ second) =
      List.compareLex comparison first second := by
  induction front with
  | nil => rfl
  | cons head rest inductionHypothesis =>
    rw [List.cons_append, List.cons_append, List.compareLex_cons_cons,
      (Std.ReflCmp.compare_self : comparison head head = .eq), inductionHypothesis]
    rfl

theorem notAfter_of_components {first second other another : Path} {front : List Component}
    (one : first.components = front ++ other.components)
    (two : second.components = front ++ another.components) :
    notAfter first second = notAfter other another := by
  unfold notAfter order
  rw [one, two, List.map_append, List.map_append, compareLex_append_left]

/-- Items are sorted alike by paths that stand in the same order. -/
theorem sorted_map_congr {Item : Type} {one two : Item → Path} {items : List Item}
    (same : ∀ first ∈ items, ∀ second ∈ items,
      notAfter (one first) (one second) = notAfter (two first) (two second)) :
    ∃ ordered : List Item, (∀ item ∈ ordered, item ∈ items) ∧
      sorted (items.map one) = ordered.map one ∧ sorted (items.map two) = ordered.map two := by
  have sortedOne : (items.mergeSort fun first second => notAfter (one first) (one second)).map one =
      sorted (items.map one) := List.map_mergeSort fun _ _ _ _ => rfl
  exact ⟨_, fun _ => List.mem_mergeSort.mp, sortedOne.symm, (List.map_mergeSort same).symm⟩

end Path

namespace Selection

open Encoding (directoryOf expand)
open FileTree (Sound)

variable {tree : FileTree} {root : Path} {wildcard : Text} {front : List Name} {last : Name}

/-! ### Cutting the wildcard -/

/-- A wildcard of components that name something. None of them goes up, and none holds a backslash,
which a wildcard is cut at and a path is not. -/
def Straight (wildcard : Text) : Prop :=
  ∀ part ∈ Text.splitOn Path.separator wildcard,
    part ≠ [] ∧ part ≠ Path.dot ∧ part ≠ Path.dotDot ∧ '\\' ∉ part

instance (wildcard : Text) : Decidable (Straight wildcard) :=
  inferInstanceAs (Decidable (∀ part ∈ Text.splitOn Path.separator wildcard, _))

/-- A wildcard as a list of directories and the last name, which both readings come to. -/
structure Reads (wildcard : Text) (front : List Name) (last : Name) : Prop where
  entries : ∀ name ∈ front ++ [last], IsEntry name
  written : wildcard = Text.joinWith Path.separator (front ++ [last])
  cut : (ofWildcard wildcard).directoryNames = front
  pattern : (ofWildcard wildcard).pattern = last

theorem isSeparator_eq_false {part : Text} (slashless : Path.separator ∉ part)
    (straight : '\\' ∉ part) : ∀ character ∈ part, isSeparator character = false := by
  intro character inside
  have notSlash : character ≠ '/' := by
    rintro rfl
    exact slashless inside
  have notBackslash : character ≠ '\\' := by
    rintro rfl
    exact straight inside
  simp [isSeparator, notSlash, notBackslash]

/-- Names joined with slashes are cut into those in front and the last one. -/
theorem cut_joinWith (named : ∀ name ∈ front, name ≠ [])
    (free : ∀ name ∈ front ++ [last], ∀ character ∈ name, isSeparator character = false) :
    (ofWildcard (Text.joinWith Path.separator (front ++ [last]))).directoryNames = front ∧
      (ofWildcard (Text.joinWith Path.separator (front ++ [last]))).pattern = last := by
  have lastFree := free last (List.mem_append_right _ (List.mem_singleton_self _))
  have frontFree : ∀ name ∈ front, ∀ character ∈ name, isSeparator character = false :=
    fun name member => free name (List.mem_append_left _ member)
  by_cases alone : front = []
  · subst alone
    have parts : ofWildcard ([] ++ last) = ⟨[], last⟩ := ofWildcard_append lastFree (Or.inl rfl)
    exact ⟨congrArg directoryNames parts, congrArg Selection.pattern parts⟩
  · have parts : ofWildcard (Text.joinWith Path.separator (front ++ [last])) =
        ⟨Text.joinWith Path.separator front ++ [Path.separator], last⟩ := by
      rw [Text.joinWith_append alone (List.cons_ne_nil _ _), List.append_cons]
      exact ofWildcard_append lastFree (Or.inr ⟨_, _, rfl, rfl⟩)
    have some : ∀ name ∈ front, (name != []) = true := fun name member => by
      simpa using named name member
    rw [parts]
    refine ⟨?_, rfl⟩
    unfold directoryNames
    rw [Text.splitWhere_append_cons (by decide),
      Text.splitWhere_joinWith (by decide) alone frontFree, List.filter_append,
      List.filter_eq_self.mpr some]
    exact List.append_nil _

theorem Straight.reads (straight : Straight wildcard) :
    ∃ front last, Reads wildcard front last := by
  have whole : Text.joinWith Path.separator (Text.splitOn Path.separator wildcard) = wildcard :=
    Text.joinWith_splitOn _ _
  have entries : ∀ part ∈ Text.splitOn Path.separator wildcard, IsEntry part := by
    intro part member
    obtain ⟨nonempty, notDot, notUp, -⟩ := straight part member
    exact ⟨Path.isMove_iff.mpr ⟨nonempty, notDot⟩, notUp, Text.not_mem_of_mem_splitOn member⟩
  have free : ∀ part ∈ Text.splitOn Path.separator wildcard, ∀ character ∈ part,
      isSeparator character = false := fun part member =>
    isSeparator_eq_false (entries part member).free (straight part member).2.2.2
  rcases List.eq_nil_or_concat (Text.splitOn Path.separator wildcard) with
    none | ⟨front, last, parts⟩
  · exact absurd none (Text.splitOn_ne_nil _ _)
  rw [List.concat_eq_append] at parts
  rw [parts] at whole entries free
  obtain ⟨cut, pattern⟩ := cut_joinWith
    (fun name member => (entries name (List.mem_append_left _ member)).ne_nil) free
  rw [whole] at cut pattern
  exact ⟨front, last, entries, whole.symm, cut, pattern⟩

/-- A failure at a path that is too long for the system. -/
def TooLong (failure : CommandFailure) : Prop :=
  ∃ path : Path, FileTree.pathLimit ≤ path.text.byteLength ∧
    (failure = .unsearchable path .nameTooLong ∨
      failure = .unlisted (.unreadable path .nameTooLong))

/-- The same files in the same order, first by full paths and then by paths relative to a root. -/
def SameFiles (root : Path) (files relatives : List Path) : Prop :=
  files.map Path.components = relatives.map fun relative => (root.join relative).components

namespace Reads

theorem lastEntry (reads : Reads wildcard front last) : IsEntry last :=
  reads.entries last (List.mem_append_right _ (List.mem_singleton_self _))

theorem frontEntries (reads : Reads wildcard front last) : ∀ name ∈ front, IsEntry name :=
  fun name member => reads.entries name (List.mem_append_left _ member)

theorem base_eq (reads : Reads wildcard front last) (root : Path) :
    (ofWildcard wildcard).base root = front.foldl Path.child root := by
  unfold base
  rw [reads.cut]

theorem given_base (reads : Reads wildcard front last) (given : root.text ≠ []) :
    ((ofWildcard wildcard).base root).text ≠ [] := by
  rw [reads.base_eq]
  exact Path.text_foldl_child_ne_nil given reads.frontEntries

theorem join_eq (reads : Reads wildcard front last) (given : root.text ≠ []) :
    root.join ⟨wildcard⟩ = ((ofWildcard wildcard).base root).child last := by
  have solid : Path.Solid (front ++ [last]) := .of_isEntry reads.entries
  have path := Path.foldl_child given solid (List.concat_ne_nil last front)
  rw [List.foldl_concat] at path
  rw [reads.base_eq, path, reads.written]
  rfl

theorem fileName?_join (reads : Reads wildcard front last) (given : root.text ≠ []) :
    (root.join ⟨wildcard⟩).fileName? = some last := by
  rw [reads.join_eq given]
  exact Path.fileName?_child (reads.given_base given) reads.lastEntry

/-! ### The directories that are searched -/

/-- The directory part of the joined path is the path that is searched below the root, without idle
steps at its end. -/
theorem trimmed (reads : Reads wildcard front last) (given : root.text ≠ []) :
    Path.Trimmed ((ofWildcard wildcard).base root) (directoryOf (root.join ⟨wildcard⟩)) := by
  obtain ⟨parent, above, trimmed⟩ :=
    Path.parent?_child (reads.given_base given) reads.lastEntry
  have directory : directoryOf (root.join ⟨wildcard⟩) = parent := by
    unfold directoryOf
    rw [reads.join_eq given, above]
    exact if_neg trimmed.shortGiven
  exact directory ▸ trimmed

/-- Below a directory that the wildcard names, both readings search by one path. -/
theorem directoryOf_eq_base (reads : Reads wildcard front last) (given : root.text ≠ [])
    (some : front ≠ []) :
    directoryOf (root.join ⟨wildcard⟩) = (ofWildcard wildcard).base root := by
  rcases List.eq_nil_or_concat front with none | ⟨before, name, whole⟩
  · exact absurd none some
  rw [List.concat_eq_append] at whole
  subst whole
  have beforeEntries : ∀ name ∈ before, IsEntry name := fun name member =>
    reads.frontEntries name (List.mem_append_left _ member)
  have entry := reads.frontEntries name (List.mem_append_right _ (List.mem_singleton_self _))
  have above := Path.parent?_child_child (Path.text_foldl_child_ne_nil given beforeEntries) entry
    reads.lastEntry
  have searched : (before.foldl Path.child root).child name = (ofWildcard wildcard).base root := by
    rw [reads.base_eq, List.foldl_concat]
  rw [searched, ← reads.join_eq given] at above
  unfold directoryOf
  rw [above]
  exact if_neg (reads.given_base given)

/-- Only a root that stands alone may be searched by two paths. -/
theorem alone_of_ne (reads : Reads wildcard front last) (given : root.text ≠ [])
    (apart : directoryOf (root.join ⟨wildcard⟩) ≠ (ofWildcard wildcard).base root) :
    front = [] ∧ (ofWildcard wildcard).base root = root := by
  have none : front = [] := by
    by_contra some
    exact apart (reads.directoryOf_eq_base given some)
  refine ⟨none, ?_⟩
  rw [reads.base_eq, none]
  rfl

/-- Where the directory to search is found, so is the root above it. -/
theorem lookup_root (sound : Sound tree) (reads : Reads wildcard front last)
    (given : root.text ≠ []) {location : Location}
    (located : tree.locate ((ofWildcard wildcard).base root) = .ok location)
    (directory : tree.isDirectoryAt location = true) : tree.lookup root = .ok .directory := by
  refine FileTree.lookup_eq_directory_iff.mpr ?_
  rw [reads.base_eq] at located
  by_cases alone : front = []
  · subst alone
    exact ⟨location, located, directory⟩
  have solid : Path.Solid front := .of_isEntry reads.frontEntries
  rw [Path.foldl_child given solid alone] at located
  have moves : (Path.ofSegments [] front).moves = front := by
    unfold Path.moves
    rw [solid.steps alone]
    exact List.filter_eq_self.mpr fun name member => (reads.frontEntries name member).move
  exact FileTree.locate_base_of_join sound given solid.isAbsolute (moves.symm ▸ alone) located

/-! ### The files that are listed -/

/-- Both readings choose a file by its name. -/
theorem selects_eq (reads : Reads wildcard front last) (given : root.text ≠ []) {names : List Name}
    (entries : ∀ name ∈ names, IsEntry name) (some : names ≠ []) :
    (ofWildcard wildcard).selects (names.foldl Path.child ((ofWildcard wildcard).base root)) =
      Encoding.accepts last (names.foldl Path.child (directoryOf (root.join ⟨wildcard⟩))) := by
  rcases List.eq_nil_or_concat names with none | ⟨before, name, whole⟩
  · exact absurd none some
  rw [List.concat_eq_append] at whole
  subst whole
  unfold selects Encoding.accepts
  rw [Path.fileName?_foldl_child (reads.given_base given) entries,
    Path.fileName?_foldl_child (reads.trimmed given).shortGiven entries, reads.pattern]
  rfl

/-- The path a file is listed by has the components of the root and then those it is reported by. -/
theorem components_eq (reads : Reads wildcard front last) (given : root.text ≠ [])
    {names : List Name} (entries : ∀ name ∈ names, IsEntry name) :
    (names.foldl Path.child (directoryOf (root.join ⟨wildcard⟩))).components =
        root.components ++ ((ofWildcard wildcard).reported names).components ∧
      (root.join ((ofWildcard wildcard).reported names)).components =
        root.components ++ ((ofWildcard wildcard).reported names).components := by
  have trimmed := reads.trimmed given
  obtain ⟨bare, relative⟩ : ((ofWildcard wildcard).reported names).lead = [] ∧
      ((ofWildcard wildcard).reported names).isAbsolute = false :=
    (Path.lead_of_trimIdle (separator_not_mem_stepsTo entries)).imp_right And.left
  refine ⟨?_, Path.components_join given bare relative⟩
  have named : ∀ steps : List Name, (∀ name ∈ steps, IsEntry name) →
      steps.map Path.componentOf = steps.map .name := fun steps each =>
    List.map_congr_left fun name member => if_neg (each name member).named
  have moves : ((ofWildcard wildcard).reported names).moves = front ++ names := by
    rw [moves_reported entries, reads.cut,
      List.filter_eq_self.mpr fun name member => (reads.frontEntries name member).move]
  have reported : ((ofWildcard wildcard).reported names).components =
      front.map .name ++ names.map .name := by
    rw [Path.components_eq, moves, List.map_append, named front reads.frontEntries,
      named names entries]
    unfold Path.leadComponents
    rw [if_pos bare, List.nil_append]
  rw [Path.components_foldl_child trimmed.shortGiven entries, trimmed.components, reads.base_eq,
    Path.components_foldl_child given reads.frontEntries, reported, List.append_assoc]

/-- The same files are chosen from what is listed below either path, and they are sorted alike. -/
theorem sorted_agree (reads : Reads wildcard front last) (given : root.text ≠ [])
    {below : List (List Name)}
    (ways : ∀ names ∈ below, (∀ name ∈ names, IsEntry name) ∧ names ≠ []) :
    SameFiles root
      (Path.sorted ((below.map fun names =>
        names.foldl Path.child (directoryOf (root.join ⟨wildcard⟩))).filter
          (Encoding.accepts last)))
      (Path.sorted (((below.map fun names =>
        names.foldl Path.child ((ofWildcard wildcard).base root)).filter
          (ofWildcard wildcard).selects).filterMap (·.below? root))) := by
  obtain ⟨chosen, within, fromDirectory, fromRoot⟩ : ∃ chosen, chosen ⊆ below ∧
      (below.map fun names => names.foldl Path.child
          (directoryOf (root.join ⟨wildcard⟩))).filter (Encoding.accepts last) =
        chosen.map (fun names => names.foldl Path.child (directoryOf (root.join ⟨wildcard⟩))) ∧
      ((below.map fun names => names.foldl Path.child ((ofWildcard wildcard).base root)).filter
          (ofWildcard wildcard).selects).filterMap (·.below? root) =
        chosen.map (ofWildcard wildcard).reported := by
    refine ⟨_, List.filter_subset_self _, List.filter_map, ?_⟩
    rw [List.filter_map, List.filterMap_map, ← List.filterMap_eq_map]
    have same : below.filter ((ofWildcard wildcard).selects ∘ fun names =>
        names.foldl Path.child ((ofWildcard wildcard).base root)) =
      below.filter (Encoding.accepts last ∘ fun names =>
        names.foldl Path.child (directoryOf (root.join ⟨wildcard⟩))) :=
      List.filter_congr fun names member => reads.selects_eq given (ways names member).1
        (ways names member).2
    rw [same]
    exact List.filterMap_congr fun names member =>
      below?_foldl_base given (ways names (List.mem_filter.mp member).1).1
  rw [fromDirectory, fromRoot]
  have entries : ∀ names ∈ chosen, ∀ name ∈ names, IsEntry name := fun names member =>
    (ways names (within member)).1
  obtain ⟨ordered, inside, one, two⟩ := Path.sorted_map_congr fun first inFirst second inSecond =>
    Path.notAfter_of_components (reads.components_eq given (entries first inFirst)).1
      (reads.components_eq given (entries second inSecond)).1
  rw [one, two]
  unfold SameFiles
  rw [List.map_map, List.map_map]
  refine List.map_congr_left fun names member => ?_
  obtain ⟨listed, reported⟩ := reads.components_eq given (entries names (inside names member))
  exact listed.trans reported.symm

/-! ### Both readings -/

theorem walk_agree (sound : Sound tree) (reads : Reads wildcard front last) (given : root.text ≠ [])
    (location : Location) :
    FileTree.Agree (tree.Downward location) ((ofWildcard wildcard).base root)
      (directoryOf (root.join ⟨wildcard⟩)) (tree.walk ((ofWildcard wildcard).base root) location)
      (tree.walk (directoryOf (root.join ⟨wildcard⟩)) location) :=
  FileTree.filesBelow_agree_twins sound (reads.trimmed given).toTwins rfl

/-- What a command finds, encoding finds, unless a file stands where it would search. -/
theorem expand_of_members (sound : Sound tree) (reads : Reads wildcard front last)
    (given : root.text ≠ [])
    (notFile : tree.isFile (directoryOf (root.join ⟨wildcard⟩)) = false) {relatives : List Path}
    (found : members tree root wildcard = .ok relatives) :
    ∃ files, expand tree (root.join ⟨wildcard⟩) = .ok files ∧ SameFiles root files relatives := by
  obtain ⟨node, location, listed, -, located, walked, rfl⟩ := members_eq_ok.mp found
  have trimmed := reads.trimmed given
  have there := FileTree.locate_short sound trimmed.toTwins
    (Text.byteLength_le_of_isPrefix trimmed.part) trimmed.ends located
  have directory : tree.isDirectoryAt location = true := by
    obtain ⟨node, stands, notLink⟩ := FileTree.occupied_of_locate sound located
    cases node with
    | directory => exact FileTree.isDirectoryAt_iff.mpr stands
    | link target => exact absurd rfl (notLink target)
    | file file =>
      have isFile := FileTree.fileAt?_eq_some_iff_locate.mpr
        ⟨location, there, FileTree.file?_eq_some_iff.mpr stands⟩
      unfold FileTree.isFile at notFile
      rw [isFile] at notFile
      cases notFile
  have looked := FileTree.lookup_eq_directory_iff.mpr ⟨location, there, directory⟩
  have agree := reads.walk_agree sound given location
  rw [walked] at agree
  generalize listing : tree.walk (directoryOf (root.join ⟨wildcard⟩)) location = answer at agree
  cases agree with
  | listed below ways =>
    exact ⟨_, Encoding.expand_eq_ok_iff.mpr
      ⟨last, location, _, reads.fileName?_join given, looked, there, listing, rfl⟩,
      reads.sorted_agree given fun names member =>
        ⟨(ways names member).entries, (ways names member).further directory⟩⟩

/-- What encoding finds, a command finds, unless it searches from a root that stands alone and is
spelled too long. -/
theorem members_of_expand (sound : Sound tree) (reads : Reads wildcard front last)
    (given : root.text ≠ []) {files : List Path}
    (expanded : expand tree (root.join ⟨wildcard⟩) = .ok files) :
    (∃ relatives, members tree root wildcard = .ok relatives ∧ SameFiles root files relatives) ∨
      front = [] ∧ directoryOf (root.join ⟨wildcard⟩) ≠ root ∧
        ∃ failure, members tree root wildcard = .error failure ∧ TooLong failure := by
  obtain ⟨name, location, listed, named, looked, located, walked, rfl⟩ :=
    Encoding.expand_eq_ok_iff.mp expanded
  obtain rfl : last = name := Option.some.inj ((reads.fileName?_join given).symm.trans named)
  have directory : tree.isDirectoryAt location = true := by
    obtain ⟨place, there, directory⟩ := FileTree.lookup_eq_directory_iff.mp looked
    exact Except.ok.inj (there.symm.trans located) ▸ directory
  rcases FileTree.locate_long sound (reads.trimmed given).toTwins (Or.inl directory) located with
    there | ⟨tooLong, exceeds⟩
  · have rootFound := reads.lookup_root sound given there directory
    have agree := reads.walk_agree sound given location
    rw [walked] at agree
    generalize listing : tree.walk ((ofWildcard wildcard).base root) location = answer at agree
    cases agree with
    | listed below ways =>
      exact Or.inl ⟨_, members_eq_ok.mpr ⟨_, location, _, rootFound, there, listing, rfl⟩,
        reads.sorted_agree given fun names member =>
          ⟨(ways names member).entries, (ways names member).further directory⟩⟩
    | tooLong path exceeds =>
      obtain ⟨none, same⟩ := reads.alone_of_ne given fun same => by
        rw [same, listing] at walked
        cases walked
      refine Or.inr ⟨none, fun whole => ?_, _, ?_, path, exceeds, Or.inr rfl⟩
      · rw [whole, ← same, listing] at walked
        cases walked
      · unfold members
        dsimp only
        rw [rootFound, there]
        dsimp only
        rw [listing]
  · obtain ⟨none, same⟩ := reads.alone_of_ne given fun same => by
      rw [same, tooLong] at located
      cases located
    rw [same] at tooLong exceeds
    refine Or.inr ⟨none, fun whole => ?_, _, ?_, root, exceeds, Or.inl rfl⟩
    · rw [whole, tooLong] at located
      cases located
    · unfold members FileTree.lookup
      dsimp only
      rw [tooLong]

end Reads

/-- The two readings of a straight wildcard agree, in any tree and whatever the spelling of the
root, where no file stands in the place of the directory to search. What a command finds encoding
finds, the same files in the same order. What encoding finds the command finds too, unless the
wildcard is a name alone, the root ends in idle steps, and a path that is spelled with them is too
long. -/
theorem expand_agrees_with_members (sound : Sound tree) (given : root.text ≠ [])
    (straight : Straight wildcard)
    (notFile : tree.isFile (directoryOf (root.join ⟨wildcard⟩)) = false) :
    (∀ relatives, members tree root wildcard = .ok relatives →
      ∃ files, expand tree (root.join ⟨wildcard⟩) = .ok files ∧ SameFiles root files relatives) ∧
    (∀ files, expand tree (root.join ⟨wildcard⟩) = .ok files →
      (∃ relatives, members tree root wildcard = .ok relatives ∧ SameFiles root files relatives) ∨
        Path.separator ∉ wildcard ∧ directoryOf (root.join ⟨wildcard⟩) ≠ root ∧
          ∃ failure, members tree root wildcard = .error failure ∧ TooLong failure) := by
  obtain ⟨front, last, reads⟩ := straight.reads
  refine ⟨fun relatives found => reads.expand_of_members sound given notFile found,
    fun files expanded => (reads.members_of_expand sound given expanded).imp_right ?_⟩
  rintro ⟨rfl, apart⟩
  refine ⟨?_, apart⟩
  rw [reads.written]
  exact reads.lastEntry.free

/-- A file in a directory. -/
def oneFile : FileTree where
  nodes := [([['s', 'r', 'c']], .directory),
    ([['s', 'r', 'c'], ['a']], .file ⟨[], ⟨1000, 0⟩, .ordinary⟩)]
  workingDirectory := []
  clock := ⟨2000, 0⟩

/-- The directory, with so many separators behind its name. -/
def padded (separators : Nat) : Path :=
  ⟨['s', 'r', 'c'] ++ List.replicate separators Path.separator⟩

theorem expand_agrees_with_members_oneFile :
    Sound oneFile ∧ (padded 0).text ≠ [] ∧ Straight ['*'] ∧
      oneFile.isFile (directoryOf ((padded 0).join ⟨['*']⟩)) = false ∧
      ∃ files, expand oneFile ((padded 0).join ⟨['*']⟩) = .ok files ∧
        SameFiles (padded 0) files [⟨['a']⟩] :=
  have sound : Sound oneFile := by decide +kernel
  have straight : Straight ['*'] := by decide +kernel
  have notFile : oneFile.isFile (directoryOf ((padded 0).join ⟨['*']⟩)) = false := by
    decide +kernel
  ⟨sound, by decide, straight, notFile,
    (expand_agrees_with_members sound (by decide) straight notFile).1 [⟨['a']⟩] (by decide +kernel)⟩

/-- Encoding finds the file behind any number of separators, and the command finds no root. -/
theorem padded_root_is_too_long :
    Sound oneFile ∧ (padded 4096).text ≠ [] ∧ Straight ['*'] ∧
      oneFile.isFile (directoryOf ((padded 4096).join ⟨['*']⟩)) = false ∧
      expand oneFile ((padded 4096).join ⟨['*']⟩) = .ok [⟨['s', 'r', 'c', '/', 'a']⟩] ∧
      members oneFile (padded 4096) ['*'] = .error (.unsearchable (padded 4096) .nameTooLong) := by
  have given : (padded 4096).text ≠ [] := by decide
  have directory : directoryOf ((padded 4096).join ⟨['*']⟩) = padded 0 := by decide +kernel
  have named : ((padded 4096).join ⟨['*']⟩).fileName? = some ['*'] :=
    Path.fileName?_child given (by decide)
  have tooLong : oneFile.locate (padded 4096) = .error .nameTooLong :=
    FileTree.locate_of_tooLong given (by decide +kernel) (by decide +kernel)
  refine ⟨by decide +kernel, given, by decide +kernel, ?_, ?_, ?_⟩
  · rw [directory]
    decide +kernel
  · refine Encoding.expand_eq_ok_iff.mpr
      ⟨['*'], [['s', 'r', 'c']], [⟨['s', 'r', 'c', '/', 'a']⟩], named, ?_⟩
    rw [directory]
    decide +kernel
  · unfold members FileTree.lookup
    dsimp only
    rw [tooLong]

end Selection

end AssetPipeline
