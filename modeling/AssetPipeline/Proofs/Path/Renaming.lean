/-
This file puts another segment in place of the last one of a path. The path then starts from where
it started and makes the same moves but the last, so it leads elsewhere when a name is replaced by
another name, or by a step up. With another extension a path therefore leads elsewhere, unless it
had that extension.
-/

import AssetPipeline.Proofs.Path.Twins

namespace AssetPipeline.Path

variable {path : Path} {front : List Text} {name segment : Text}

theorem isAbsolute_iff_lead (path : Path) :
    path.isAbsolute = true ↔ path.lead = [separator] := by
  rcases path with ⟨_ | ⟨head, rest⟩⟩
  · simp [isAbsolute, lead]
  · by_cases slash : head = '/'
    · simp [isAbsolute, lead, slash, separator]
    · unfold isAbsolute lead
      split <;> simp_all [dot, separator]

theorem isMove_of_namedSegments (named : path.namedSegments = front ++ [name]) :
    isMove name = true := by
  have some : path.namedSegments ≠ [] := by simp [named]
  obtain ⟨_, last, whole, move, -⟩ := namedSegments_eq_append some
  obtain ⟨-, same⟩ := List.append_inj' (named.symm.trans whole) rfl
  exact List.singleton_inj.mp same ▸ move

theorem namedSegments_of_fileName? (fileName : path.fileName? = some name) :
    ∃ front, path.namedSegments = front ++ [name] ∧ name ≠ dotDot := by
  unfold fileName? at fileName
  split at fileName
  · cases fileName
  next last ends =>
  split at fileName
  · cases fileName
  next below =>
  obtain rfl := Option.some.inj fileName
  obtain ⟨front, named⟩ := List.getLast?_eq_some_iff.mp ends
  exact ⟨front, named, below⟩

theorem text_ne_nil_of_namedSegments (named : path.namedSegments = front ++ [name]) :
    path.text ≠ [] := by
  intro empty
  have given : path = ⟨[]⟩ := congrArg Path.mk empty
  rw [given] at named
  exact absurd named.symm (List.append_ne_nil_of_right_ne_nil front (List.cons_ne_nil name []))

section LastSegment

variable (named : path.namedSegments = front ++ [name])

include named

theorem withLastSegment_eq : path.withLastSegment segment =
    ofSegments path.lead (front ++ [segment]) := by
  unfold withLastSegment
  rw [named, List.dropLast_concat]

/-- The lead of a path bounds another segment as well in place of the last. -/
theorem leadFits_concat : LeadFits path.lead (front ++ [segment]) := by
  have fits := path.leadFits.of_isPrefix path.namedSegments_isPrefix
  rw [named] at fits
  rcases fits with none | root | ⟨here, none | first⟩
  · exact Or.inl none
  · exact Or.inr (Or.inl root)
  · simp at none
  · refine Or.inr (Or.inr ⟨here, Or.inr ?_⟩)
    cases front with
    | nil =>
      obtain rfl : name = [] := by simpa using first
      cases isMove_of_namedSegments named
    | cons head tail => simpa using first

theorem free_of_namedSegments : ∀ step ∈ front ++ [name], separator ∉ step := fun _ member =>
  separator_not_mem_of_mem_segments (path.namedSegments_isPrefix.subset (named ▸ member))

theorem moves_of_namedSegments : path.moves = front.filter isMove ++ [name] := by
  rw [← filter_namedSegments, named, List.filter_append,
    List.filter_cons_of_pos (isMove_of_namedSegments named), List.filter_nil]

theorem free_withLastSegment (free : separator ∉ segment) :
    ∀ step ∈ front ++ [segment], separator ∉ step := by
  intro step member
  rcases List.mem_append.mp member with inFront | last
  · exact free_of_namedSegments named step (List.mem_append_left _ inFront)
  · exact List.mem_singleton.mp last ▸ free

theorem moves_withLastSegment (move : isMove segment = true) (free : separator ∉ segment) :
    (path.withLastSegment segment).moves = front.filter isMove ++ [segment] := by
  rw [withLastSegment_eq named, moves_ofSegments (leadFits_concat named)
    (free_withLastSegment named free), List.filter_append, List.filter_cons_of_pos move,
    List.filter_nil]

theorem isAbsolute_withLastSegment (move : isMove segment = true) (free : separator ∉ segment) :
    (path.withLastSegment segment).isAbsolute = path.isAbsolute := by
  rw [withLastSegment_eq named]
  rcases @leadFits_concat path front name segment named with none | root | ⟨here, -⟩
  · have relative : path.isAbsolute = false := by
      rw [← Bool.not_eq_true, isAbsolute_iff_lead, none]
      exact List.cons_ne_nil _ _ ∘ Eq.symm
    rw [relative, none, ← Bool.not_eq_true]
    intro absolute
    -- An absolute path begins with an empty step, and none of these steps can be the first one.
    obtain ⟨rest, steps⟩ := steps_of_isAbsolute absolute
    have cut : (ofSegments [] (front ++ [segment])).steps = front ++ [segment] :=
      Text.splitOn_joinWith (by simp) (free_withLastSegment named free)
    rw [cut] at steps
    cases front with
    | nil =>
      obtain rfl : segment = [] := (List.cons.inj steps).1
      cases move
    | cons head tail =>
      obtain rfl : head = [] := (List.cons.inj steps).1
      obtain ⟨first, others, segments, moves⟩ :=
        segments_of_lead_nil (text_ne_nil_of_namedSegments named) none
      obtain ⟨back, whole⟩ := path.namedSegments_isPrefix
      rw [segments, named] at whole
      obtain rfl : [] = first := (List.cons.inj whole).1
      cases moves
  · have absolute := (isAbsolute_iff_lead path).mpr root
    rw [absolute, root]
    rfl
  · have relative : path.isAbsolute = false := by
      rw [← Bool.not_eq_true, isAbsolute_iff_lead, here]
      decide
    rw [relative, here]
    rfl

/-- With the segment that it has, a path names what it names. -/
theorem components_withLastSegment_self :
    (path.withLastSegment name).components = path.components := by
  have move := isMove_of_namedSegments named
  have free := free_of_namedSegments named name (by simp)
  have given := text_ne_nil_of_namedSegments named
  have lead : (path.withLastSegment name).lead = path.lead := by
    rw [withLastSegment_eq named, ← named]
    exact lead_ofSegments given path.namedSegments_isPrefix
  rw [components_eq, components_eq, moves_withLastSegment named move free,
    moves_of_namedSegments named]
  unfold leadComponents
  rw [lead, isAbsolute_withLastSegment named move free]

end LastSegment

/-- Another last segment leads elsewhere, for none leads where a name does. -/
theorem location_withLastSegment_ne (named : path.namedSegments = front ++ [name])
    (entry : IsEntry name) (move : isMove segment = true) (free : separator ∉ segment)
    (differs : segment ≠ name) (working : Location) :
    (path.withLastSegment segment).location working ≠ path.location working := by
  have start : (path.withLastSegment segment).startFrom working = path.startFrom working := by
    unfold startFrom
    rw [isAbsolute_withLastSegment named move free]
  rw [location_eq_moves, location_eq_moves, start, moves_withLastSegment named move free,
    moves_of_namedSegments named, Location.along_concat entry, Location.along_append,
    Location.along_cons, Location.along_nil]
  generalize (path.startFrom working).along (front.filter isMove) = holder
  by_cases up : segment = dotDot
  · rw [up, Location.step_dotDot]
    intro same
    have lengths := congrArg List.length same
    rw [List.length_dropLast, Location.child, List.length_append, List.length_singleton] at lengths
    omega
  · rw [Location.step_of_isMove move up]
    unfold Location.child
    simpa using differs

/-- A path that is another one with the extension leads elsewhere with it. -/
theorem location_withExtension_ne {extension : Text} (plain : Plain extension)
    (apart : (path.withExtension extension).components ≠ path.components) (working : Location) :
    (path.withExtension extension).location working ≠ path.location working := by
  have cases : path.withExtension extension = path ∨ ∃ front name segment,
      path.namedSegments = front ++ [name] ∧ name ≠ dotDot ∧ isMove segment = true ∧
        separator ∉ segment ∧ path.withExtension extension = path.withLastSegment segment := by
    unfold withExtension
    cases fileName : path.fileName? with
    | none => exact Or.inl rfl
    | some name =>
      right
      obtain ⟨front, named, below⟩ := namedSegments_of_fileName? fileName
      have given := (isMove_iff.mp (isMove_of_namedSegments named)).1
      have free := free_of_namedSegments named name (by simp)
      dsimp only
      split
      · exact ⟨front, name, dotDot, named, below, rfl, by decide, rfl⟩
      · exact ⟨front, name, _, named, below, isMove_extended plain _,
          separator_not_mem_extended given free plain, rfl⟩
  rcases cases with same | ⟨front, name, segment, named, below, move, free, same⟩
  · exact absurd (congrArg components same) apart
  · rw [same] at apart ⊢
    have entry : IsEntry name :=
      ⟨isMove_of_namedSegments named, below, free_of_namedSegments named name (by simp)⟩
    refine location_withLastSegment_ne named entry move free ?_ working
    rintro rfl
    exact apart (components_withLastSegment_self named)

end AssetPipeline.Path
