/-
This file says that the operations of a build keep a tree one that a file system can hold, whether
there are links in it or not. Whatever a path is looked up for, a place that is found vacant is a
name in a directory, so something can be put there; and what is removed is never a directory.
-/

import AssetPipeline.Proofs.FileTree.Opening

namespace AssetPipeline.FileTree

variable {tree later : FileTree}

/-! ### Vacant places -/

theorem vacancy_of_takeSteps (sound : Sound tree) {aim : Aim}
    {onLink : Location → List Text → Except Fault Place} {reached : Location}
    (linked : ∀ location steps, (∀ step ∈ steps, Path.separator ∉ step) →
      onLink location steps = .ok (.vacant reached) → tree.Vacancy reached)
    {location : Location} {steps : List Text} (free : ∀ step ∈ steps, Path.separator ∉ step)
    (found : tree.takeSteps aim onLink location steps = .ok (.vacant reached)) :
    tree.Vacancy reached := by
  induction steps generalizing location with
  | nil => cases found
  | cons step rest inductionHypothesis =>
    have freeRest : ∀ other ∈ rest, Path.separator ∉ other := fun other member =>
      free other (List.mem_cons_of_mem _ member)
    unfold takeSteps at found
    by_cases directory : tree.isDirectoryAt location = true
    · rw [if_neg (not_not_intro directory)] at found
      split at found
      · exact inductionHypothesis freeRest found
      next moves =>
      split at found
      · exact inductionHypothesis freeRest found
      next named =>
      split at found
      · cases found
      split at found
      · cases found
      split at found
      · next none =>
        split at found
        · obtain rfl := Place.vacant.inj (Except.ok.inj found)
          exact vacancy_child sound directory
            ⟨by simpa [Path.isMove] using moves, named, free step List.mem_cons_self⟩ none
        · cases found
      · next target _ =>
        split at found
        · cases found
        · refine linked _ _ (fun other member => ?_) found
          rcases List.mem_append.mp member with inTarget | inRest
          · exact Path.separator_not_mem_of_mem_steps inTarget
          · exact freeRest other inRest
      · exact inductionHypothesis freeRest found
    · rw [if_pos directory] at found
      cases found

theorem vacancy_of_follow (sound : Sound tree) {aim : Aim} {links : Nat} {reached : Location}
    {location : Location} {steps : List Text} (free : ∀ step ∈ steps, Path.separator ∉ step)
    (found : tree.follow aim links location steps = .ok (.vacant reached)) :
    tree.Vacancy reached := by
  induction links generalizing location steps with
  | zero => exact vacancy_of_takeSteps sound (fun _ _ _ failed => by cases failed) free found
  | succ links inductionHypothesis =>
    exact vacancy_of_takeSteps sound (fun _ _ free found => inductionHypothesis free found) free
      found

/-- A place that is found vacant, whatever it was looked up for, is a name in a directory. -/
theorem vacancy_of_placeOfSteps (sound : Sound tree) {aim : Aim} {path : Path} {steps : List Text}
    {reached : Location} (free : ∀ step ∈ steps, Path.separator ∉ step)
    (found : tree.placeOfSteps aim path steps = .ok (.vacant reached)) : tree.Vacancy reached := by
  rw [placeOfSteps_eq tree aim (usable_of_placeOfSteps found)] at found
  exact vacancy_of_follow sound free found

/-! ### Directories -/

namespace Sound

theorem makeDirectory (sound : Sound tree) {path : Path}
    (made : tree.makeDirectory path = .ok later) : Sound later := by
  unfold FileTree.makeDirectory at made
  split at made
  · split at made <;> cases made
  split at made
  · cases made
  · cases made
  next location placed =>
  obtain rfl := Except.ok.inj made
  have vacancy := vacancy_of_placeOfSteps sound (fun step member =>
    Path.separator_not_mem_of_mem_steps (mem_steps_of_mem_solidSteps member)) placed
  exact sound.put vacancy.room.below vacancy.entries vacancy.housed fun _ => rfl

theorem makeFirst (sound : Sound tree) (paths : List Path) : Sound (tree.makeFirst paths).1 := by
  induction paths with
  | nil => exact sound
  | cons path above inductionHypothesis =>
    unfold FileTree.makeFirst
    split
    · exact sound
    split
    · next made first => exact sound.makeDirectory first
    · split
      · next tried fault higher => rwa [higher] at inductionHypothesis
      · next tried higher =>
        rw [higher] at inductionHypothesis
        split
        · next made second => exact inductionHypothesis.makeDirectory second
        · split <;> exact inductionHypothesis
    · split <;> exact sound

theorem makeParent (sound : Sound tree) (path : Path) : Sound (tree.makeParent path).1 := by
  unfold FileTree.makeParent
  split
  · exact sound
  next parent _ =>
  split
  · exact sound
  have directories : Sound (tree.makeDirectories parent).1 := sound.makeFirst parent.ancestors
  split
  · next made whole => rwa [whole] at directories
  · next made fault whole => rwa [whole] at directories

/-! ### Files -/

theorem writeFile (sound : Sound tree) {path : Path} {content : Bytes}
    (written : tree.writeFile path content = .ok later) : Sound later := by
  unfold FileTree.writeFile at written
  split at written
  · cases written
  next opened location created =>
  obtain rfl := Except.ok.inj written
  exact ((rewritten_of_create sound rfl created).fill content).sound

theorem copyFile (sound : Sound tree) {source target : Path}
    (copied : tree.copyFile source target = .ok later) : Sound later := by
  unfold FileTree.copyFile at copied
  split at copied
  · cases copied
  split at copied
  · cases copied
  split at copied
  · split at copied
    · cases copied
    next opened location created =>
    obtain rfl := Except.ok.inj copied
    obtain ⟨mode, opens, -⟩ := opened_of_create sound created
    exact (Room.of_node opens.sound (file?_eq_some_iff.mp opens.file)).sound opens.sound _
  · cases copied

theorem copyModified (sound : Sound tree) {source target : Path}
    (stamped : tree.copyModified source target = .ok later) : Sound later := by
  unfold FileTree.copyModified at stamped
  split at stamped
  · cases stamped
  split at stamped
  · cases stamped
  next set =>
  obtain rfl := Except.ok.inj stamped
  unfold setModified at set
  split at set
  · cases set
  split at set
  · cases set
  split at set
  · next location _ file there =>
    obtain rfl := Except.ok.inj set
    exact (Room.of_node sound (file?_eq_some_iff.mp there)).sound sound _
  · obtain rfl := Except.ok.inj set
    exact sound.stampDirectory _ _

theorem removeFile (sound : Sound tree) {path : Path}
    (removed : tree.removeFile path = .ok later) : Sound later := by
  unfold FileTree.removeFile at removed
  split at removed
  · cases removed
  · split at removed
    · cases removed
    · cases removed
    split at removed
    · cases removed
    next leaf =>
    obtain rfl := Except.ok.inj removed
    exact sound.drop (by simpa using leaf)
  · split at removed
    · cases removed
    · cases removed
    · split at removed <;> cases removed

end Sound

end AssetPipeline.FileTree
