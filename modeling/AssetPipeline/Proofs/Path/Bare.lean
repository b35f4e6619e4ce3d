/-
This file is about relative paths written from segments of which the first and the last are moves.
Such a path is bare: it has no lead, and cutting its text gives the segments back. What a command
reports is written this way, and so is the output of a file. Swapping the extension of a bare path
renames its last segment. The one name that does not stay a name is one such as `..wav`, whose
stem is a dot: it becomes `..`.
-/

import AssetPipeline.Proofs.Path.Location
import AssetPipeline.Proofs.Path.Relative
import Mathlib.Data.List.Induction

namespace AssetPipeline.Path

/-- Segments that begin and end with a move and hold no separator. -/
structure Bare (segments : List Text) : Prop where
  free : ∀ segment ∈ segments, separator ∉ segment
  first : ∃ head rest, segments = head :: rest ∧ isMove head = true
  last : ∃ front name, segments = front ++ [name] ∧ isMove name = true

namespace Bare

variable {segments : List Text}

theorem nonempty (bare : Bare segments) : segments ≠ [] := by
  obtain ⟨head, rest, rfl, -⟩ := bare.first
  exact List.cons_ne_nil _ _

theorem steps (bare : Bare segments) : (ofSegments [] segments).steps = segments := by
  unfold Path.steps ofSegments
  rw [List.nil_append, Text.splitOn_joinWith bare.nonempty bare.free]

theorem text_ne_nil (bare : Bare segments) : (ofSegments [] segments).text ≠ [] := by
  intro empty
  obtain ⟨head, rest, whole, move⟩ := bare.first
  have cut := bare.steps
  unfold Path.steps at cut
  rw [empty, whole] at cut
  obtain ⟨rfl, -⟩ : [] = head ∧ [] = rest := List.cons.inj cut
  simp [isMove, isIdle] at move

theorem lead (bare : Bare segments) : (ofSegments [] segments).lead = [] := by
  obtain ⟨head, rest, whole, move⟩ := bare.first
  exact (lead_eq_nil_iff bare.text_ne_nil).mpr ⟨head, rest, bare.steps.trans whole, move⟩

theorem segments_eq (bare : Bare segments) : (ofSegments [] segments).segments = segments := by
  unfold Path.segments
  rw [bare.lead]
  exact bare.steps

theorem isAbsolute (bare : Bare segments) : (ofSegments [] segments).isAbsolute = false := by
  obtain ⟨head, rest, whole, move⟩ := bare.first
  by_contra absolute
  obtain ⟨others, steps⟩ := steps_of_isAbsolute (by simpa using absolute)
  obtain ⟨rfl, -⟩ := List.cons.inj (whole.symm.trans (bare.steps.symm.trans steps))
  cases move

theorem moves (bare : Bare segments) :
    (ofSegments [] segments).moves = segments.filter isMove := by
  unfold Path.moves
  rw [bare.steps]

theorem namedSegments (bare : Bare segments) :
    (ofSegments [] segments).namedSegments = segments := by
  obtain ⟨front, name, rfl, move⟩ := bare.last
  unfold Path.namedSegments
  rw [bare.segments_eq, trimIdle_of_isMove move]

theorem isMove_last {front : List Text} {name : Text} (bare : Bare (front ++ [name])) :
    isMove name = true := by
  obtain ⟨others, last, whole, move⟩ := bare.last
  have same : name = last := by simpa using congrArg List.getLast? whole
  exact same ▸ move

/-- Another last segment that is a move. -/
theorem rename {front : List Text} {name other : Text} (bare : Bare (front ++ [name]))
    (move : isMove other = true) (free : separator ∉ other) : Bare (front ++ [other]) where
  free segment member := by
    rcases List.mem_append.mp member with inFront | isLast
    · exact bare.free _ (List.mem_append_left _ inFront)
    · exact List.mem_singleton.mp isLast ▸ free
  first := by
    obtain ⟨head, rest, whole, headMove⟩ := bare.first
    cases front with
    | nil => exact ⟨other, [], rfl, move⟩
    | cons first others =>
      obtain ⟨rfl, -⟩ := List.cons.inj whole
      exact ⟨first, others ++ [other], rfl, headMove⟩
  last := ⟨front, other, rfl, move⟩

end Bare

/-- Steps without the idle ones at either end are bare, if any are left. -/
theorem bare_of_trimIdle {steps : List Text} (free : ∀ step ∈ steps, separator ∉ step)
    (some : trimIdle (steps.dropWhile isIdle) ≠ []) : Bare (trimIdle (steps.dropWhile isIdle)) := by
  have part := trimIdle_isPrefix (steps.dropWhile isIdle)
  obtain ⟨front, last, whole, move⟩ := trimIdle_eq_append some
  refine ⟨fun segment member => ?_, ?_, front, last, whole, move⟩
  · exact free segment ((List.dropWhile_suffix _).subset (part.subset member))
  · obtain ⟨head, rest, same⟩ := List.exists_cons_of_ne_nil some
    obtain ⟨more, start⟩ := part
    have stopped := List.head?_dropWhile_not isIdle steps
    rw [← start, same] at stopped
    exact ⟨head, rest, same, by simpa [isMove] using stopped⟩

/-- What is left of steps that end in a move once the idle steps in front of them are gone. -/
theorem Bare.of_steps {front : List Text} {name : Text} (move : isMove name = true)
    (free : ∀ step ∈ front ++ [name], separator ∉ step) :
    Bare (front.dropWhile isIdle ++ [name]) ∧
      trimIdle ((front ++ [name]).dropWhile isIdle) = front.dropWhile isIdle ++ [name] := by
  have stays : isIdle name = false := by simpa [isMove] using move
  have dropped : (front ++ [name]).dropWhile isIdle = front.dropWhile isIdle ++ [name] := by
    rw [List.dropWhile_append]
    split
    · next none =>
      rw [List.isEmpty_iff.mp none, List.nil_append, List.dropWhile_cons_of_neg (by simp [stays])]
    · rfl
  have trimmed : trimIdle ((front ++ [name]).dropWhile isIdle) =
      front.dropWhile isIdle ++ [name] := by
    rw [dropped, trimIdle_of_isMove move]
  exact ⟨trimmed ▸ bare_of_trimIdle free (by simp [trimmed]), trimmed⟩

/-- The path written from such steps begins nowhere in particular and makes their moves. -/
theorem lead_of_trimIdle {steps : List Text} (free : ∀ step ∈ steps, separator ∉ step) :
    (ofSegments [] (trimIdle (steps.dropWhile isIdle))).lead = [] ∧
      (ofSegments [] (trimIdle (steps.dropWhile isIdle))).isAbsolute = false ∧
      (ofSegments [] (trimIdle (steps.dropWhile isIdle))).moves = steps.filter isMove := by
  rw [← filter_dropWhile_isIdle, ← filter_trimIdle]
  by_cases none : trimIdle (steps.dropWhile isIdle) = []
  · rw [none]
    exact ⟨rfl, rfl, rfl⟩
  · have bare := bare_of_trimIdle free none
    exact ⟨bare.lead, bare.isAbsolute, bare.moves⟩

/-- A path to an entry: bare, and its last segment is the name of the entry. -/
structure Inner (path : Path) (front : List Text) (name : Name) : Prop where
  bare : Bare (front ++ [name])
  written : path = ofSegments [] (front ++ [name])
  entry : IsEntry name

namespace Inner

variable {path : Path} {front : List Text} {name : Name}

theorem moves (inner : path.Inner front name) : path.moves = front.filter isMove ++ [name] := by
  rw [inner.written, inner.bare.moves, List.filter_append, List.filter_cons_of_pos inner.entry.move,
    List.filter_nil]

theorem isAbsolute (inner : path.Inner front name) : path.isAbsolute = false :=
  inner.written ▸ inner.bare.isAbsolute

theorem steps (inner : path.Inner front name) : path.steps = front ++ [name] :=
  inner.written ▸ inner.bare.steps

/-- Without `..` in front of it, an entry is reached by going down alone. -/
theorem isEntry (inner : path.Inner front name) (named : dotDot ∉ front) :
    ∀ move ∈ path.moves, IsEntry move := by
  intro move member
  refine ⟨isMove_of_mem_moves member, ?_, separator_not_mem_of_mem_moves member⟩
  rintro rfl
  rw [inner.moves] at member
  rcases List.mem_append.mp member with inFront | last
  · exact named (List.mem_filter.mp inFront).1
  · exact inner.entry.named (List.mem_singleton.mp last).symm

/-- Paths to entries are the same when they make the same moves. -/
theorem components_eq_iff {other : Path} {back : List Text} {last : Name}
    (inner : path.Inner front name) (second : other.Inner back last) :
    path.components = other.components ↔ path.moves = other.moves := by
  have lead : path.lead = [] := inner.written ▸ inner.bare.lead
  have otherLead : other.lead = [] := second.written ▸ second.bare.lead
  constructor
  · exact moves_injective_of_lead (lead.trans otherLead.symm)
      (inner.isAbsolute.trans second.isAbsolute.symm)
  · intro same
    rw [components_eq, components_eq, same]
    unfold leadComponents
    rw [if_pos lead, if_pos otherLead]

end Inner

/-! ### Another extension -/

/-- The name a file gets with another extension. The name is cut at its last dot before the new
extension is put on, and when that leaves a single dot in front, the name is gone. -/
def renamed (name : Name) (extension : Text) : Text :=
  let stem := (splitName name).stem
  if stem = dot then dotDot else stem ++ extensionText extension

/-- Cutting a name at its last dot leaves a beginning of it that is not empty. -/
theorem stem_splitName {name : Name} (given : name ≠ []) :
    (splitName name).stem ≠ [] ∧ (splitName name).stem <+: name := by
  unfold splitName
  split
  · exact ⟨given, List.prefix_rfl⟩
  · next nonempty =>
    refine ⟨nonempty, (List.dropLast_prefix _).trans ?_⟩
    rw [← List.reverse_suffix, List.reverse_reverse]
    exact List.dropWhile_suffix _

/-- The extension put on a stem is what the name is cut at. -/
theorem splitName_append {stem extension : Text} (given : stem ≠ []) (plain : '.' ∉ extension) :
    splitName (stem ++ '.' :: extension) = ⟨stem, some extension⟩ := by
  have undotted : ∀ character ∈ extension.reverse, (character != '.') = true := by
    intro character member
    have differs : character ≠ '.' := fun same => plain (same ▸ List.mem_reverse.mp member)
    simpa using differs
  have backwards : (stem ++ '.' :: extension).reverse =
      extension.reverse ++ '.' :: stem.reverse := by
    simp
  have taken : ((stem ++ '.' :: extension).reverse.takeWhile (· != '.')).reverse = extension := by
    rw [backwards, List.takeWhile_append_of_pos undotted]
    simp
  have dropped : ((stem ++ '.' :: extension).reverse.dropWhile (· != '.')).reverse.dropLast =
      stem := by
    rw [backwards, List.dropWhile_append_of_pos undotted]
    simp
  unfold splitName
  simp only [taken, dropped]

/-- An extension that can be swapped in: not empty, without dots and separators. -/
structure Plain (extension : Text) : Prop where
  nonempty : extension ≠ []
  undotted : '.' ∉ extension
  free : separator ∉ extension

section Renaming

variable {name : Name} {extension : Text}

theorem renamed_of_ne_dot (differs : (splitName name).stem ≠ dot) (plain : Plain extension) :
    renamed name extension = (splitName name).stem ++ '.' :: extension := by
  unfold renamed extensionText
  simp only [if_neg differs, if_neg plain.nonempty]

theorem renamed_eq_dotDot_iff (plain : Plain extension) :
    renamed name extension = dotDot ↔ (splitName name).stem = dot := by
  by_cases same : (splitName name).stem = dot
  · simp [renamed, same]
  · rw [renamed_of_ne_dot same plain]
    refine iff_of_false (fun up => ?_) same
    have long := congrArg List.length up
    have some := List.length_pos_of_ne_nil plain.nonempty
    cases stem : (splitName name).stem with
    | nil =>
      rw [stem] at up
      obtain ⟨-, rest⟩ := List.cons.inj up
      exact plain.undotted (rest ▸ List.mem_cons_self)
    | cons head rest =>
      rw [stem] at long
      simp [dotDot] at long
      omega

/-- A stem with an extension is a move. -/
theorem isMove_extended (plain : Plain extension) (stem : Text) :
    isMove (stem ++ extensionText extension) = true := by
  unfold extensionText
  rw [if_neg plain.nonempty, isMove_iff]
  refine ⟨by simp, fun alone => ?_⟩
  have long := congrArg List.length alone
  have some := List.length_pos_of_ne_nil plain.nonempty
  simp [dot] at long
  omega

theorem separator_not_mem_extended (given : name ≠ []) (free : separator ∉ name)
    (plain : Plain extension) :
    separator ∉ (splitName name).stem ++ extensionText extension := by
  unfold extensionText
  rw [if_neg plain.nonempty, List.mem_append, List.mem_cons, not_or, not_or]
  exact ⟨fun inside => free ((stem_splitName given).2.subset inside), by decide, plain.free⟩

theorem isMove_renamed (plain : Plain extension) : isMove (renamed name extension) = true := by
  unfold renamed
  dsimp only
  split
  · rfl
  · exact isMove_extended plain _

theorem separator_not_mem_renamed (given : name ≠ []) (free : separator ∉ name)
    (plain : Plain extension) : separator ∉ renamed name extension := by
  unfold renamed
  dsimp only
  split
  · decide
  · exact separator_not_mem_extended given free plain

/-- Renaming twice leaves the second extension, as long as the name stays one. -/
theorem renamed_renamed {other : Text} (given : name ≠ []) (differs : (splitName name).stem ≠ dot)
    (plain : Plain extension) :
    renamed (renamed name extension) other = renamed name other := by
  have stem : (splitName (renamed name extension)).stem = (splitName name).stem := by
    rw [renamed_of_ne_dot differs plain, splitName_append (stem_splitName given).1 plain.undotted]
  unfold renamed at stem ⊢
  rw [stem]

end Renaming

theorem fileName?_of_namedSegments {path : Path} {front : List Text} {name : Text}
    (named : path.namedSegments = front ++ [name]) (differs : name ≠ dotDot) :
    path.fileName? = some name := by
  unfold fileName?
  rw [named, List.getLast?_concat]
  exact if_neg differs

/-- Swapping the extension of a bare path renames its last segment. -/
theorem Bare.withExtension {front : List Text} {name extension : Text}
    (bare : Bare (front ++ [name])) (differs : name ≠ dotDot) :
    (ofSegments [] (front ++ [name])).withExtension extension =
      ofSegments [] (front ++ [renamed name extension]) := by
  unfold Path.withExtension withLastSegment renamed
  rw [fileName?_of_namedSegments bare.namedSegments differs, bare.segments_eq, bare.namedSegments,
    bare.lead, List.getLast?_concat, List.dropLast_concat]
  by_cases same : (splitName name).stem = dot
  · simp [same]
  · simp [same]

/-- Swapping the extension of a joined path swaps that of what was joined. -/
theorem Bare.withExtension_join {base : Path} {front : List Text} {name extension : Text}
    (given : base.text ≠ []) (bare : Bare (front ++ [name])) (differs : name ≠ dotDot)
    (plain : Plain extension) :
    (base.join (ofSegments [] (front ++ [name]))).withExtension extension =
      base.join (ofSegments [] (front ++ [renamed name extension])) := by
  obtain ⟨start, segments, -, text⟩ := segments_join given bare.isAbsolute
  have move : isMove name = true := bare.isMove_last
  have nonempty : name ≠ [] := (isMove_iff.mp move).1
  have free : separator ∉ name := bare.free name (by simp)
  have renamedBare : Bare (front ++ [renamed name extension]) :=
    bare.rename (isMove_renamed plain) (separator_not_mem_renamed nonempty free plain)
  rw [bare.steps] at segments
  have named : (base.join (ofSegments [] (front ++ [name]))).namedSegments =
      start ++ front ++ [name] := by
    unfold Path.namedSegments
    rw [segments, ← List.append_assoc, trimIdle_of_isMove move]
  have joined : ∀ other, Bare (front ++ [other]) →
      ofSegments base.lead (start ++ front ++ [other]) =
        base.join (ofSegments [] (front ++ [other])) := by
    intro other otherBare
    have texts : (ofSegments base.lead (start ++ front ++ [other])).text =
        (base.join (ofSegments [] (front ++ [other]))).text := by
      rw [List.append_assoc, text _ (by simp), text_join given otherBare.isAbsolute]
      rfl
    exact congrArg Path.mk texts
  rw [← joined _ renamedBare]
  unfold Path.withExtension withLastSegment renamed
  rw [fileName?_of_namedSegments named differs, named, lead_join given bare.isAbsolute, segments,
    ← List.append_assoc, List.getLast?_concat, List.dropLast_concat]
  by_cases same : (splitName name).stem = dot
  · simp [same]
  · simp [same]

/-! ### Going down from a directory -/

/-- Names of entries, as far as the text of a path is concerned. -/
def Solid (segments : List Text) : Prop :=
  ∀ segment ∈ segments, segment ≠ [] ∧ separator ∉ segment

namespace Solid

variable {segments : List Text}

theorem of_isEntry (entries : ∀ segment ∈ segments, IsEntry segment) : Solid segments :=
  fun segment member => ⟨(entries segment member).ne_nil, (entries segment member).free⟩

theorem steps (solid : Solid segments) (some : segments ≠ []) :
    (ofSegments [] segments).steps = segments := by
  unfold Path.steps ofSegments
  rw [List.nil_append, Text.splitOn_joinWith some fun segment member => (solid segment member).2]

theorem isAbsolute (solid : Solid segments) : (ofSegments [] segments).isAbsolute = false := by
  by_cases none : segments = []
  · subst none
    rfl
  · by_contra absolute
    have absolute : (ofSegments [] segments).isAbsolute = true := by simpa using absolute
    obtain ⟨others, first⟩ := steps_of_isAbsolute absolute
    rw [solid.steps none] at first
    exact (solid [] (first ▸ List.mem_cons_self)).1 rfl

/-- A text that ends in a separator ends in an empty step. -/
theorem getLast?_text {base : Path} (given : base.text ≠ []) (solid : Solid segments)
    (some : segments ≠ []) :
    (base.join (ofSegments [] segments)).text.getLast? ≠ Option.some separator := by
  intro last
  obtain ⟨front, whole⟩ := List.getLast?_eq_some_iff.mp last
  obtain ⟨stem, opened, -⟩ := base.opened_eq
  have cut := text_join given solid.isAbsolute
  rw [whole, opened] at cut
  have steps := congrArg (Text.splitOn separator) cut
  rw [Text.splitOn_append_cons, List.append_assoc, List.singleton_append, Text.splitOn_append_cons]
    at steps
  have same := congrArg List.getLast? steps
  have pieces : Text.splitOn separator (ofSegments [] segments).text = segments := solid.steps some
  rw [pieces, List.getLast?_append_of_ne_nil _ some] at same
  exact (solid [] (List.mem_of_getLast? (same.symm.trans List.getLast?_concat))).1 rfl

end Solid

theorem below?_self {root : Path} (given : root.text ≠ []) :
    root.below? root = Option.some ⟨[]⟩ := by
  have taken : root.components.length - root.leadComponents.length =
      (root.segments.filter isMove).length := by
    rw [components_eq, List.length_append, List.length_map, moves_eq_segments]
    exact Nat.add_sub_cancel_left _ _
  have rest := dropWhile_dropNamed root.segments []
  rw [List.append_nil] at rest
  unfold below?
  rw [if_pos (List.isPrefixOf_iff_prefix.mpr List.prefix_rfl), if_neg (components_ne_nil given)]
  simp only [taken, rest]
  rfl

/-- Going down entry by entry is joining the path of the entries. -/
theorem foldl_child {base : Path} {segments : List Text} (given : base.text ≠ [])
    (solid : Solid segments) (some : segments ≠ []) :
    segments.foldl child base = base.join (ofSegments [] segments) := by
  induction segments using List.reverseRecOn with
  | nil => exact absurd rfl some
  | append_singleton front last inductionHypothesis =>
    have frontSolid : Solid front := fun segment member =>
      solid segment (List.mem_append_left _ member)
    have lastSolid : Solid [last] := fun segment member =>
      solid segment (List.mem_append_right _ member)
    rw [List.foldl_concat]
    by_cases none : front = []
    · subst none
      rfl
    · rw [inductionHypothesis frontSolid none]
      have texts : ((base.join (ofSegments [] front)).join (ofSegments [] [last])).text =
          (base.join (ofSegments [] (front ++ [last]))).text := by
        have opened : (base.join (ofSegments [] front)).opened =
            base.opened ++ Text.joinWith separator front ++ [separator] := by
          rw [Path.opened, if_neg (frontSolid.getLast?_text given none),
            text_join given frontSolid.isAbsolute]
          rfl
        rw [text_join (text_join_ne_nil given frontSolid.isAbsolute) lastSolid.isAbsolute, opened,
          text_join given solid.isAbsolute]
        unfold ofSegments
        rw [List.nil_append, List.nil_append, Text.joinWith_append none (List.cons_ne_nil _ _)]
        simp
      exact congrArg Path.mk texts

/-- The part of a path below the directory it goes down from. -/
theorem below?_foldl {root : Path} {segments : List Text} (given : root.text ≠ [])
    (solid : Solid segments) : (segments.foldl child root).below? root =
      some (ofSegments [] (trimIdle (segments.dropWhile isIdle))) := by
  by_cases none : segments = []
  · subst none
    exact below?_self given
  · rw [foldl_child given solid none, below?_join given solid.isAbsolute, solid.steps none]

end AssetPipeline.Path
