/-
This file says when directories can be made and files written. The name at the end of a path can be
filled when the directory in front of it is there. When only directories are missing, from some
place on the way down, all of them can be made: the attempt for the last one finds that the one
above is missing, and once those above are made it succeeds. A file can then be copied there, with
the content and the mode of its source, and be given its time.
-/

import AssetPipeline.Proofs.FileTree.Changes

namespace AssetPipeline.FileTree

variable {tree later : FileTree} {location : Location} {path : Path}

/-! ### The last step of a path -/

section Steps

variable {aim : Aim} {onLink : Location → List Text → Except Fault Place}

/-- Steps that can be taken are taken, when something follows that is more than separators. -/
theorem takeSteps_append (plain : Plain tree) {first rest : List Text}
    (passes : tree.Passes location first) (goesOn : rest.all (· == []) = false) :
    tree.takeSteps aim onLink location (first ++ rest) =
      tree.takeSteps aim onLink (location.along first) rest := by
  induction first generalizing location with
  | nil => rfl
  | cons head others inductionHypothesis =>
    obtain ⟨directory, stands, further⟩ := passes
    have onwards := inductionHypothesis further
    have open' : ¬ (aim = .newFile ∧ others ++ rest ≠ [] ∧
        (others ++ rest).all (· == []) = true) := by
      rintro ⟨-, -, closed⟩
      rw [List.all_append, goesOn, Bool.and_false] at closed
      cases closed
    rw [List.cons_append, takeSteps, if_neg (not_not_intro directory), Location.along_cons]
    by_cases idle : Path.isIdle head = true
    · rw [if_pos idle]
      rwa [Location.step_of_idle (by simp [Path.isMove, idle])] at onwards ⊢
    have move : Path.isMove head = true := by simpa [Path.isMove] using idle
    rw [if_neg idle]
    by_cases up : head = Path.dotDot
    · rw [if_pos up]
      rwa [up, Location.step_dotDot] at onwards ⊢
    obtain ⟨short, there⟩ := stands move up
    rw [Location.step_of_isMove move up] at onwards ⊢
    rw [if_neg up, if_neg open', if_neg (Nat.not_lt_of_le short)]
    rcases plain.cases (location.child head) with none | inner | ⟨file, found⟩
    · rw [none] at there
      cases there
    · rwa [inner]
    · rwa [found]

/-- A name is looked for in its directory. -/
theorem takeSteps_singleton (plain : Plain tree) {name : Name}
    (directory : tree.isDirectoryAt location = true) (entry : IsEntry name)
    (short : name.byteLength ≤ longestName) : tree.takeSteps aim onLink location [name] =
      .ok (if (tree.node? (location.child name)).isSome then .found (location.child name)
        else .vacant (location.child name)) := by
  have move : ¬ Path.isIdle name = true := by simpa [Path.isMove] using entry.move
  rw [takeSteps, if_neg (not_not_intro directory), if_neg move, if_neg entry.named,
    if_neg fun closed => closed.2.1 rfl, if_neg (Nat.not_lt_of_le short)]
  rcases plain.cases (location.child name) with none | inner | ⟨file, found⟩
  · rw [none]
    rfl
  · rw [inner]
    rfl
  · rw [found]
    rfl

/-- Where a directory is missing on the way down, what is behind it is not found. -/
theorem takeSteps_missing {steps rest : List Text} (some : rest ≠ [])
    (directory : tree.isDirectoryAt location = true)
    (entries : ∀ name ∈ steps.filter Path.isMove, IsEntry name ∧ name.byteLength ≤ longestName)
    (free : ∀ part, part <+: steps.filter Path.isMove →
      tree.node? (location ++ part) = none ∨ tree.isDirectoryAt (location ++ part) = true)
    (missing : tree.node? (location ++ steps.filter Path.isMove) = none) :
    tree.takeSteps .entry onLink location (steps ++ rest) = .error .notFound := by
  induction steps generalizing location with
  | nil =>
    rw [List.filter_nil, List.append_nil] at missing
    rw [isDirectoryAt_iff, missing] at directory
    cases directory
  | cons head others inductionHypothesis =>
    rw [List.cons_append, takeSteps, if_neg (not_not_intro directory)]
    by_cases idle : Path.isIdle head = true
    · rw [List.filter_cons_of_neg (by simp [Path.isMove, idle])] at entries free missing
      rw [if_pos idle]
      exact inductionHypothesis directory entries free missing
    have move : Path.isMove head = true := by simpa [Path.isMove] using idle
    rw [List.filter_cons_of_pos move] at entries free missing
    obtain ⟨entry, short⟩ := entries head List.mem_cons_self
    have sought : ¬ (Aim.entry = .newFile ∧ others ++ rest ≠ [] ∧
        (others ++ rest).all (· == []) = true) := by
      rintro ⟨wanted, -⟩
      cases wanted
    rw [if_neg idle, if_neg entry.named, if_neg sought, if_neg (Nat.not_lt_of_le short)]
    rcases free [head] (List.prefix_append [head] _) with none | inner
    · rw [show tree.node? (location.child head) = Option.none from none]
      exact if_neg fun empty => some (List.append_eq_nil_iff.mp empty).2
    · rw [show tree.node? (location.child head) = _ from isDirectoryAt_iff.mp inner]
      refine inductionHypothesis inner (fun name member => entries name
        (List.mem_cons_of_mem _ member)) (fun part within => ?_) ?_
      · rw [Location.child_append]
        exact free (head :: part) ((List.prefix_cons_inj head).mpr within)
      · rw [Location.child_append]
        exact missing

end Steps

/-- A path that ends in a name, in a directory that is there. -/
structure Entered (tree : FileTree) (path : Path) (name : Name) : Prop where
  usable : path.Usable
  entry : IsEntry name
  short : name.byteLength ≤ longestName
  way : ∃ front, path.steps = front ++ [name] ∧
    tree.Passes (path.startFrom tree.workingDirectory) front ∧
    tree.isDirectoryAt ((path.startFrom tree.workingDirectory).along front) = true

namespace Entered

variable {name : Name}

theorem ending (entered : tree.Entered path name) : path.ending = .name := by
  obtain ⟨front, steps, -⟩ := entered.way
  exact ending_of_isEntry steps entered.entry

theorem solidSteps (entered : tree.Entered path name) : path.solidSteps = path.steps := by
  obtain ⟨front, steps, -⟩ := entered.way
  exact solidSteps_of_isEntry steps entered.entry

/-- What is looked up is the name in the directory. -/
theorem place_eq (entered : tree.Entered path name) (plain : Plain tree) (aim : Aim) :
    tree.place aim path =
      .ok (if (tree.node? (path.location tree.workingDirectory)).isSome then
        .found (path.location tree.workingDirectory)
        else .vacant (path.location tree.workingDirectory)) := by
  obtain ⟨front, steps, passes, directory⟩ := entered.way
  obtain ⟨onLink, same⟩ := follow_eq_takeSteps tree aim linkLimit
  have goesOn : [name].all (· == []) = false := by simpa using entered.entry.ne_nil
  unfold place
  rw [placeOfSteps_eq tree aim entered.usable, same, steps, takeSteps_append plain passes goesOn,
    takeSteps_singleton plain directory entered.entry entered.short]
  unfold Path.location
  rw [steps, Location.along_concat entered.entry]

/-- A directory is made where nothing stands. -/
theorem makeDirectory (entered : tree.Entered path name) (plain : Plain tree)
    (vacant : tree.node? (path.location tree.workingDirectory) = none) :
    tree.makeDirectory path = .ok (tree.put (path.location tree.workingDirectory) .directory) := by
  have placed := entered.place_eq plain .entry
  rw [vacant] at placed
  unfold place at placed
  unfold FileTree.makeDirectory
  rw [if_neg (by rw [entered.ending]; decide), entered.solidSteps, placed]
  rfl

end Entered

/-! ### Making directories -/

/-- A path that is reached is there already. -/
theorem makeDirectory_of_reaches (plain : Plain tree) (reaches : tree.Reaches path) :
    tree.makeDirectory path = .error .alreadyExists := by
  obtain ⟨closing, whole⟩ : ∃ closing, path.solidSteps ++ closing = path.steps := by
    unfold Path.solidSteps
    exact List.reverse_suffix.mp (by
      rw [List.reverse_reverse]
      exact List.dropWhile_suffix _)
  have passes := reaches.passes
  rw [← whole] at passes
  obtain ⟨onLink, same⟩ := follow_eq_takeSteps tree .entry linkLimit
  obtain ⟨onward, again⟩ := follow_eq_takeSteps tree .target linkLimit
  unfold makeDirectory
  split
  · -- The steps short of the last solid one lead to a directory, for that one is taken from it.
    have holder : tree.Passes (path.startFrom tree.workingDirectory) path.holderSteps := by
      unfold Path.holderSteps
      refine passes_append.mpr ?_
      rcases List.eq_nil_or_concat path.solidSteps with none | ⟨front, last, split⟩
      · rw [none]
        obtain ⟨first, rest, steps⟩ := List.exists_cons_of_ne_nil path.steps_ne_nil
        have starts := reaches.passes
        rw [steps] at starts
        exact ⟨trivial, starts.1, nofun, trivial⟩
      · rw [List.concat_eq_append] at split
        rw [split, List.append_assoc, passes_append] at passes
        rw [split, List.dropLast_concat]
        exact ⟨passes.1, passes.2.1, nofun, trivial⟩
    rw [placeOfSteps_eq tree .target reaches.usable, again,
      (takeSteps_eq_found_iff plain (by decide)).mpr ⟨holder, rfl⟩]
  · rw [placeOfSteps_eq tree .entry reaches.usable, same,
      (takeSteps_eq_found_iff plain (by decide)).mpr ⟨(passes_append.mp passes).1, rfl⟩]

/-- From a directory that the first moves of a path lead to, the others go down by names. -/
structure Way (tree : FileTree) (base : List Text) (below : List Name) (path : Path) : Prop where
  usable : path.Usable
  moves : path.moves = base ++ below
  ends : path.moves = [] ∨ ∃ front last, path.steps = front ++ [last] ∧ Path.isMove last = true
  passes : tree.Passes (path.startFrom tree.workingDirectory) base
  directory : tree.isDirectoryAt ((path.startFrom tree.workingDirectory).along base) = true
  entries : ∀ name ∈ below, IsEntry name ∧ name.byteLength ≤ longestName

/-- They go down through directories or where nothing stands. -/
structure Clear (tree : FileTree) (base : List Text) (below : List Name) (path : Path) : Prop
    extends Way tree base below path where
  free : ∀ part, part <+: below →
    tree.node? ((path.startFrom tree.workingDirectory).along base ++ part) = none ∨
      tree.isDirectoryAt ((path.startFrom tree.workingDirectory).along base ++ part) = true

section Way

variable {base : List Text} {below front : List Name} {name : Name}

namespace Way

theorem location_eq (way : tree.Way base below path) :
    path.location tree.workingDirectory =
      (path.startFrom tree.workingDirectory).along base ++ below := by
  rw [Path.location_eq_moves, way.moves, Location.along_append,
    Location.along_of_isEntry fun name member => (way.entries name member).1]

/-- The names that lead to something can be passed. -/
theorem passes_append (way : tree.Way base below path) (plain : Plain tree)
    {names : List Name} (part : names <+: below)
    (stands : (tree.node? ((path.startFrom tree.workingDirectory).along base ++
      names)).isSome = true) :
    tree.Passes (path.startFrom tree.workingDirectory) (base ++ names) :=
  FileTree.passes_append.mpr ⟨way.passes, Passes.of_isEntry plain.toSound
    (fun name member => (way.entries name (part.subset member)).1)
    (fun name member => (way.entries name (part.subset member)).2) stands⟩

theorem reaches (way : tree.Way base below path) (plain : Plain tree)
    (directory : tree.isDirectoryAt (path.location tree.workingDirectory) = true) :
    tree.Reaches path := by
  refine ⟨way.usable, Passes.of_filter ?_ directory⟩
  show tree.Passes _ path.moves
  rw [way.moves]
  refine way.passes_append plain List.prefix_rfl ?_
  rw [← way.location_eq, isDirectoryAt_iff.mp directory]
  rfl

/-- The steps in front of the last name, cut where the first moves end. -/
theorem steps_eq (way : tree.Way base (front ++ [name]) path) :
    ∃ first second, path.steps = first ++ second ++ [name] ∧
      first.filter Path.isMove = base ∧ second.filter Path.isMove = front := by
  have moves := way.moves
  obtain ⟨before, last, steps, move⟩ := way.ends.resolve_left (by simp [moves])
  unfold Path.moves at moves
  rw [steps, List.filter_append, List.filter_cons_of_pos move, List.filter_nil,
    ← List.append_assoc] at moves
  obtain ⟨same, single⟩ := List.append_inj' moves rfl
  obtain ⟨first, second, rfl, firstMoves, secondMoves⟩ := List.filter_eq_append_iff.mp same
  exact ⟨first, second, List.singleton_inj.mp single ▸ steps, firstMoves, secondMoves⟩

/-- The last name can be entered when the directory above is there. -/
theorem entered (way : tree.Way base (front ++ [name]) path) (plain : Plain tree)
    (holder : tree.isDirectoryAt
      ((path.startFrom tree.workingDirectory).along base ++ front) = true) :
    tree.Entered path name := by
  obtain ⟨entry, short⟩ := way.entries name (by simp)
  obtain ⟨first, second, steps, firstMoves, secondMoves⟩ := way.steps_eq
  have reached : (path.startFrom tree.workingDirectory).along (first ++ second) =
      (path.startFrom tree.workingDirectory).along base ++ front := by
    rw [← Location.along_filter, List.filter_append, firstMoves, secondMoves,
      Location.along_append, Location.along_of_isEntry fun other member =>
        (way.entries other (List.mem_append_left _ member)).1]
  refine ⟨way.usable, entry, short, first ++ second, steps, ?_, reached ▸ holder⟩
  refine Passes.of_filter ?_ (reached ▸ holder)
  rw [List.filter_append, firstMoves, secondMoves]
  refine way.passes_append plain (List.prefix_append _ _) ?_
  rw [isDirectoryAt_iff.mp holder]
  rfl

theorem startFrom_parent {above : Path} (parent : path.parent? = some above)
    (given : above.text ≠ []) (working : Location) :
    above.startFrom working = path.startFrom working := by
  unfold Path.startFrom
  rw [Path.isAbsolute_of_isPrefix (Path.parent?_eq_some parent).1 given]

/-- The way to the parent is shorter by a name. -/
theorem parent (way : tree.Way base (front ++ [name]) path) {above : Path}
    (parent : path.parent? = some above) (given : above.text ≠ []) :
    tree.Way base front above := by
  obtain ⟨text, moves⟩ := Path.parent?_eq_some parent
  rw [way.moves, ← List.append_assoc, List.dropLast_concat] at moves
  have start := startFrom_parent parent given tree.workingDirectory
  exact {
    usable := way.usable.of_isPrefix text given
    moves := moves
    ends := Path.ends_of_parent? parent
    passes := start ▸ way.passes
    directory := start ▸ way.directory
    entries := fun other member => way.entries other (List.mem_append_left _ member) }

/-- Ways stay when directories are made. -/
theorem of_grows (way : tree.Way base below path) {made : Location → Prop}
    (grows : Grows tree later made) : later.Way base below path := by
  refine ⟨way.usable, way.moves, way.ends, ?_, ?_, way.entries⟩
  · rw [grows.working]
    refine way.passes.mono (fun _ => grows.isDirectoryAt) fun stands => ?_
    rw [grows.node?_eq stands]
    exact stands
  · rw [grows.working]
    exact grows.isDirectoryAt way.directory

end Way

namespace Clear

/-- Where the directory above is missing, there is none to make this one in. -/
theorem makeDirectory_missing (clear : tree.Clear base (front ++ [name]) path)
    (plain : Plain tree) (missing : tree.node?
      ((path.startFrom tree.workingDirectory).along base ++ front) = none) :
    tree.makeDirectory path = .error .notFound := by
  obtain ⟨entry, -⟩ := clear.entries name (by simp)
  obtain ⟨first, second, steps, firstMoves, secondMoves⟩ := clear.steps_eq
  have ending : path.ending = .name := ending_of_isEntry steps entry
  have solid : path.solidSteps = path.steps := solidSteps_of_isEntry steps entry
  have reached : (path.startFrom tree.workingDirectory).along first =
      (path.startFrom tree.workingDirectory).along base := by
    rw [← Location.along_filter, firstMoves]
  have passes : tree.Passes (path.startFrom tree.workingDirectory) first :=
    Passes.of_filter (firstMoves ▸ clear.passes) (reached ▸ clear.directory)
  have goesOn : (second ++ [name]).all (· == []) = false := by
    rw [List.all_append]
    simp [entry.ne_nil]
  obtain ⟨onLink, same⟩ := follow_eq_takeSteps tree .entry linkLimit
  unfold makeDirectory
  rw [if_neg (by rw [ending]; decide), solid, placeOfSteps_eq tree .entry clear.usable, same,
    steps, List.append_assoc, takeSteps_append plain passes goesOn, reached,
    takeSteps_missing (List.cons_ne_nil _ _) clear.directory]
  · intro other member
    exact clear.entries other (List.mem_append_left _ (secondMoves ▸ member))
  · intro part within
    exact clear.free part (within.trans (secondMoves ▸ List.prefix_append _ _))
  · rw [secondMoves]
    exact missing

/-- What is clear stays clear when directories are made. -/
theorem of_grows (clear : tree.Clear base below path) {made : Location → Prop}
    (grows : Grows tree later made) : later.Clear base below path := by
  refine ⟨clear.toWay.of_grows grows, fun part within => ?_⟩
  rw [grows.working]
  rcases grows.node ((path.startFrom tree.workingDirectory).along base ++ part) with
    same | ⟨-, directory, -⟩
  · rw [same, isDirectoryAt_iff, same, ← isDirectoryAt_iff]
    exact clear.free part within
  · exact Or.inr (isDirectoryAt_iff.mpr directory)

/-- What is clear is clear for the parent. -/
theorem parent (clear : tree.Clear base (front ++ [name]) path) {above : Path}
    (parent : path.parent? = some above) (given : above.text ≠ []) :
    tree.Clear base front above := by
  refine ⟨clear.toWay.parent parent given, fun part within => ?_⟩
  rw [Way.startFrom_parent parent given]
  exact clear.free part (within.trans (List.prefix_append _ _))

/-- A directory that is there needs no making. -/
theorem makeFirst_of_reaches (plain : Plain tree) (reaches : tree.Reaches path)
    (directory : tree.isDirectoryAt (path.location tree.workingDirectory) = true)
    (above : List Path) : tree.makeFirst (path :: above) = (tree, .ok ()) := by
  unfold makeFirst
  rw [if_neg reaches.usable.given, makeDirectory_of_reaches plain reaches]
  dsimp only
  rw [if_pos ((isDirectory_iff plain).mpr ⟨reaches, directory⟩)]

/-- The path above a name below the first moves leads to the directory that holds the name. -/
theorem exists_parent (clear : tree.Clear base (front ++ [name]) path) (some : front ≠ []) :
    ∃ parent, path.parent? = .some parent ∧ parent.text ≠ [] ∧ tree.Clear base front parent := by
  obtain ⟨parent, above⟩ : ∃ parent, path.parent? = .some parent := by
    refine Option.ne_none_iff_exists'.mp fun none => ?_
    have still := Path.moves_of_parent?_eq_none none
    rw [clear.moves] at still
    simp at still
  have moves := (Path.parent?_eq_some above).2
  rw [clear.moves, ← List.append_assoc, List.dropLast_concat] at moves
  have given : parent.text ≠ [] := by
    intro empty
    have none : parent.moves = [] := by
      obtain ⟨written⟩ := parent
      obtain rfl := empty
      rfl
    exact some (List.append_eq_nil_iff.mp (moves.symm.trans none)).2
  exact ⟨parent, above, given, clear.parent above given⟩

/-- In a directory that is there, the name is made or is a directory already. -/
theorem makeDirectory_cases (clear : tree.Clear base (front ++ [name]) path) (plain : Plain tree)
    (holder : tree.isDirectoryAt
      ((path.startFrom tree.workingDirectory).along base ++ front) = true) :
    (∃ made, tree.makeDirectory path = .ok made) ∨
      tree.makeDirectory path = .error .alreadyExists ∧ tree.isDirectory path = true := by
  have free := clear.free _ List.prefix_rfl
  rw [← clear.location_eq] at free
  rcases free with vacant | directory
  · exact Or.inl ⟨_, (clear.entered plain holder).makeDirectory plain vacant⟩
  · have reaches := clear.reaches plain directory
    exact Or.inr ⟨makeDirectory_of_reaches plain reaches,
      (isDirectory_iff plain).mpr ⟨reaches, directory⟩⟩

/-- Nothing above has to be made where the directory that holds the name is there. -/
theorem makeFirst_of_holder (clear : tree.Clear base (front ++ [name]) path) (plain : Plain tree)
    (holder : tree.isDirectoryAt
      ((path.startFrom tree.workingDirectory).along base ++ front) = true) (above : List Path) :
    (tree.makeFirst (path :: above)).2 = .ok () := by
  unfold makeFirst
  rw [if_neg clear.usable.given]
  rcases clear.makeDirectory_cases plain holder with ⟨made, done⟩ | ⟨there, directory⟩
  · rw [done]
  · rw [there]
    dsimp only
    rw [if_pos directory]

/-- Where that directory is missing, the name is made once those above are. -/
theorem makeFirst_of_missing (clear : tree.Clear base (front ++ [name]) path) (plain : Plain tree)
    (missing : tree.node? ((path.startFrom tree.workingDirectory).along base ++ front) = none)
    {above : List Path} (tried : (tree.makeFirst above).2 = .ok ())
    (holder : (tree.makeFirst above).1.isDirectoryAt
      ((path.startFrom tree.workingDirectory).along base ++ front) = true) :
    (tree.makeFirst (path :: above)).2 = .ok () := by
  have grows := makeFirst_grows plain above
  have first : tree.makeFirst above = ((tree.makeFirst above).1, .ok ()) := Prod.ext rfl tried
  rw [← grows.working] at holder
  unfold makeFirst
  rw [if_neg clear.usable.given, clear.makeDirectory_missing plain missing]
  dsimp only
  rw [first]
  dsimp only
  rcases (clear.of_grows grows).makeDirectory_cases grows.plain holder with
    ⟨made, done⟩ | ⟨there, directory⟩
  · rw [done]
  · rw [there]
    dsimp only
    rw [if_pos directory]

/-- The first directory of the list is made, and those above it as far as they are missing. -/
theorem makeFirst_ok (clear : tree.Clear base below path) (plain : Plain tree) {fuel : Nat}
    (enough : below.length ≤ fuel) :
    (tree.makeFirst (path.ancestorsWithin fuel)).2 = .ok () := by
  -- The directories go down by names, and each name takes one level of the list.
  induction below using List.reverseRecOn generalizing path fuel with
  | nil =>
    obtain ⟨above, list⟩ := path.ancestorsWithin_eq_cons fuel
    have directory := clear.directory
    have reached := clear.location_eq
    rw [List.append_nil] at reached
    rw [← reached] at directory
    rw [list, makeFirst_of_reaches plain (clear.reaches plain directory) directory]
  | append_singleton front name inductionHypothesis =>
    rcases clear.free front (List.prefix_append _ _) with missing | holder
    · have some : front ≠ [] := by
        rintro rfl
        rw [List.append_nil] at missing
        have directory := clear.directory
        rw [isDirectoryAt_iff, missing] at directory
        cases directory
      obtain ⟨parent, above, given, clearAbove⟩ := clear.exists_parent some
      rw [List.length_append, List.length_singleton] at enough
      obtain ⟨less, rfl⟩ : ∃ less, fuel = less + 1 := ⟨fuel - 1, by omega⟩
      have made := inductionHypothesis clearAbove (Nat.le_of_succ_le_succ enough)
      rw [Path.ancestorsWithin, above]
      refine clear.makeFirst_of_missing plain missing made ?_
      rw [← Way.startFrom_parent above given, ← clearAbove.location_eq]
      obtain ⟨higher, list⟩ := parent.ancestorsWithin_eq_cons less
      rw [list] at made ⊢
      exact isDirectoryAt_of_makeFirst plain given made
    · obtain ⟨above, list⟩ := path.ancestorsWithin_eq_cons fuel
      rw [list]
      exact clear.makeFirst_of_holder plain holder above

end Clear

end Way

/-- Room is made for a path whose parent is clear. -/
theorem makeParent_ok (plain : Plain tree) {base : List Text} {below : List Name}
    (clear : ∀ parent, path.parent? = some parent → parent.text ≠ [] →
      tree.Clear base below parent) : (tree.makeParent path).2 = .ok () := by
  unfold makeParent
  split
  · rfl
  next parent parentEq =>
  split
  · rfl
  next missing =>
  have given : parent.text ≠ [] := fun empty => missing (Or.inl empty)
  have clearHere := clear parent parentEq given
  have enough : below.length ≤ parent.text.length := by
    have moves := parent.length_moves_le
    rw [clearHere.moves, List.length_append] at moves
    omega
  have made := clearHere.makeFirst_ok plain enough
  unfold makeDirectories Path.ancestors
  split
  · rfl
  · next tried fault failed =>
    rw [failed] at made
    cases made

/-! ### Writing files -/

section Files

variable {name : Name} {source target : Path} {file : File}

/-- A file is opened where nothing stands, or a file that its owner may write. -/
theorem create_of_entered (entered : tree.Entered path name) (plain : Plain tree) {mode : Mode}
    (free : tree.node? (path.location tree.workingDirectory) = none ∨
      ∃ old, tree.file? (path.location tree.workingDirectory) = some old ∧
        old.mode.ownerWrites = true) :
    ∃ opened, tree.create path mode = .ok (tree.put (path.location tree.workingDirectory)
      (.file opened), path.location tree.workingDirectory) := by
  unfold create
  rw [entered.place_eq plain]
  rcases free with vacant | ⟨old, stands, writes⟩
  · rw [vacant]
    exact ⟨_, rfl⟩
  · have node := file?_eq_some_iff.mp stands
    rw [node]
    dsimp only [Option.isSome_some]
    rw [if_pos rfl]
    dsimp only
    rw [node]
    dsimp only
    rw [if_pos writes]
    exact ⟨_, rfl⟩

/-- A file that its owner may read is copied, with its content and its mode. -/
theorem copyFile_of_entered (plain : Plain tree) (reaches : tree.Reaches source)
    (there : tree.file? (source.location tree.workingDirectory) = some file)
    (reads : file.mode.ownerReads = true) (entered : tree.Entered target name)
    (apart : source.location tree.workingDirectory ≠ target.location tree.workingDirectory)
    (free : tree.node? (target.location tree.workingDirectory) = none ∨
      ∃ old, tree.file? (target.location tree.workingDirectory) = some old ∧
        old.mode.ownerWrites = true) :
    ∃ copied, tree.copyFile source target = .ok copied ∧
      copied.file? (target.location tree.workingDirectory) =
        some ⟨file.content, tree.clock, file.mode⟩ := by
  obtain ⟨opened, created⟩ := @create_of_entered tree target name entered plain
    file.mode.created free
  have room := (create_ok plain created).2.1
  unfold copyFile
  rw [(locate_eq_ok_iff plain).mpr ⟨reaches, rfl⟩]
  dsimp only
  rw [there]
  dsimp only
  rw [if_pos reads, created]
  refine ⟨_, rfl, ?_⟩
  have kept : (tree.put (target.location tree.workingDirectory) (.file opened)).file?
      (source.location tree.workingDirectory) = some file := by
    rw [file?_congr (node?_put_of_ne tree apart _), there]
  rw [kept]
  exact file?_put room.below _

/-- A time is passed on between files that are reached. -/
theorem copyModified_of_reaches (plain : Plain tree) (sourceReaches : tree.Reaches source)
    (targetReaches : tree.Reaches target) :
    ∃ stamped, tree.copyModified source target = .ok stamped := by
  have clean : ¬ target.text.contains '\x00' = true := by
    rw [targetReaches.usable.clean]
    exact Bool.false_ne_true
  unfold copyModified modified setModified
  rw [(locate_eq_ok_iff plain).mpr ⟨sourceReaches, rfl⟩,
    (locate_eq_ok_iff plain).mpr ⟨targetReaches, rfl⟩]
  simp only [Except.map]
  rw [if_neg clean]
  cases tree.file? (target.location tree.workingDirectory) with
  | none => exact ⟨_, rfl⟩
  | some old => exact ⟨_, rfl⟩

end Files

end AssetPipeline.FileTree
