/-
This file says where the output of a source goes, and where the wave between decoder and encoder
goes. Both stand beside each other: the steps to the source are kept but for the last, which takes
the new extension. The one name that does not stay a name under this is one such as `..wav`, and
then the output would be the directory above.
-/

import AssetPipeline.Build.Run
import AssetPipeline.Proofs.Path.Bare

namespace AssetPipeline

/-- The name that the output of a source has. -/
def Verb.outputName (verb : Verb) (name : Name) : Text :=
  match verb.newExtension? with
  | none => name
  | some extension => Path.renamed name extension

theorem plain_oggExtension : Path.Plain Verb.oggExtension where
  nonempty := by decide
  undotted := by decide
  free := by decide

theorem plain_waveExtension : Path.Plain Toolbox.waveExtension where
  nonempty := by decide
  undotted := by decide
  free := by decide

/-- A verb keeps the extension or swaps in that of Ogg Vorbis files. -/
theorem Verb.newExtension?_cases (verb : Verb) :
    verb = .copy ∧ verb.newExtension? = none ∨
      verb ≠ .copy ∧ verb.newExtension? = some Verb.oggExtension := by
  cases verb <;> decide

section OutputName

variable {verb : Verb} {name : Name}

theorem Verb.outputName_of_ne_copy (converts : verb ≠ .copy) (name : Name) :
    verb.outputName name = Path.renamed name Verb.oggExtension := by
  rcases verb.newExtension?_cases with ⟨copies, -⟩ | ⟨-, swapped⟩
  · exact absurd copies converts
  · unfold Verb.outputName
    rw [swapped]

theorem isMove_outputName (entry : IsEntry name) : Path.isMove (verb.outputName name) = true := by
  by_cases copies : verb = .copy
  · subst copies
    exact entry.move
  · rw [Verb.outputName_of_ne_copy copies]
    exact Path.isMove_renamed plain_oggExtension

theorem separator_not_mem_outputName (entry : IsEntry name) :
    Path.separator ∉ verb.outputName name := by
  by_cases copies : verb = .copy
  · subst copies
    exact entry.free
  · rw [Verb.outputName_of_ne_copy copies]
    exact Path.separator_not_mem_renamed entry.ne_nil entry.free plain_oggExtension

/-- The output has a name unless it goes up. -/
theorem isEntry_outputName (entry : IsEntry name) (named : verb.outputName name ≠ Path.dotDot) :
    IsEntry (verb.outputName name) :=
  ⟨isMove_outputName entry, named, separator_not_mem_outputName entry⟩

end OutputName

namespace Path.Inner

variable {relative : Path} {front : List Text} {name : Name}

theorem bare_output (inner : relative.Inner front name) (verb : Verb) :
    Bare (front ++ [verb.outputName name]) :=
  inner.bare.rename (isMove_outputName inner.entry) (separator_not_mem_outputName inner.entry)

/-- The output is reported by the steps to the source and the new name. -/
theorem outputOf_eq (inner : relative.Inner front name) (verb : Verb) :
    Session.outputOf verb relative = ofSegments [] (front ++ [verb.outputName name]) := by
  unfold Session.outputOf Path.output Verb.outputName
  rw [inner.written]
  rcases verb.newExtension?_cases with ⟨-, kept⟩ | ⟨-, swapped⟩
  · rw [kept]
  · rw [swapped]
    exact inner.bare.withExtension inner.entry.named

/-- An output with a name is an entry as its source is. -/
theorem output (inner : relative.Inner front name) {verb : Verb}
    (named : verb.outputName name ≠ dotDot) :
    (Session.outputOf verb relative).Inner front (verb.outputName name) :=
  ⟨inner.bare_output verb, inner.outputOf_eq verb, isEntry_outputName inner.entry named⟩

theorem moves_outputOf (inner : relative.Inner front name) (verb : Verb) :
    (Session.outputOf verb relative).moves = front.filter isMove ++ [verb.outputName name] := by
  rw [inner.outputOf_eq, (inner.bare_output verb).moves, List.filter_append,
    List.filter_cons_of_pos (isMove_outputName inner.entry), List.filter_nil]

theorem isAbsolute_outputOf (inner : relative.Inner front name) (verb : Verb) :
    (Session.outputOf verb relative).isAbsolute = false := by
  rw [inner.outputOf_eq]
  exact (inner.bare_output verb).isAbsolute

theorem location_outputOf (inner : relative.Inner front name) (verb : Verb) {root : Path}
    (given : root.text ≠ []) (working : Location) :
    (root.join (Session.outputOf verb relative)).location working =
      (root.location working).along (front ++ [verb.outputName name]) := by
  rw [location_join given (inner.isAbsolute_outputOf verb), inner.moves_outputOf,
    Location.along_append, Location.along_append, Location.along_filter]

/-! ### The wave between decoder and encoder -/

/-- The wave stands beside the output. -/
theorem scratchOf_eq (inner : relative.Inner front name) {verb : Verb} {root : Path}
    (given : root.text ≠ []) (named : verb.outputName name ≠ dotDot) :
    Toolbox.scratchOf (root.join (Session.outputOf verb relative)) =
      root.join
        (ofSegments [] (front ++ [renamed (verb.outputName name) Toolbox.waveExtension])) := by
  unfold Toolbox.scratchOf
  rw [inner.outputOf_eq]
  exact (inner.bare_output verb).withExtension_join given named plain_waveExtension

/-- A path that ends by going up takes no extension. -/
theorem scratchOf_of_dotDot (inner : relative.Inner front name) {verb : Verb} {root : Path}
    (given : root.text ≠ []) (up : verb.outputName name = dotDot) :
    Toolbox.scratchOf (root.join (Session.outputOf verb relative)) =
      root.join (Session.outputOf verb relative) := by
  have bare := inner.bare_output verb
  obtain ⟨start, segments, -⟩ := segments_join given (inner.isAbsolute_outputOf verb)
  rw [inner.outputOf_eq, bare.steps, up, ← List.append_assoc] at segments
  have unnamed : (root.join (Session.outputOf verb relative)).fileName? = none := by
    unfold fileName? namedSegments
    rw [inner.outputOf_eq, up, segments, trimIdle_of_isMove isMove_dotDot, List.getLast?_concat]
    exact if_pos rfl
  unfold Toolbox.scratchOf Path.withExtension
  rw [unnamed]

/-- The wave beside an output, as a report would show it. -/
theorem scratchOf_outputOf (inner : relative.Inner front name) {verb : Verb}
    (named : verb.outputName name ≠ dotDot) :
    Toolbox.scratchOf (Session.outputOf verb relative) =
      ofSegments [] (front ++ [renamed (verb.outputName name) Toolbox.waveExtension]) := by
  unfold Toolbox.scratchOf
  rw [inner.outputOf_eq]
  exact (inner.bare_output verb).withExtension named

/-- Output and wave have different names, and that of the wave is one as long as that of the output
is. -/
theorem scratchName (inner : relative.Inner front name) {verb : Verb} (converts : verb ≠ .copy)
    (named : verb.outputName name ≠ dotDot) :
    IsEntry (renamed (verb.outputName name) Toolbox.waveExtension) ∧
      renamed (verb.outputName name) Toolbox.waveExtension ≠ verb.outputName name := by
  have entry := isEntry_outputName inner.entry named
  rw [Verb.outputName_of_ne_copy converts] at named entry ⊢
  have stem : (splitName name).stem ≠ dot := fun same =>
    named ((renamed_eq_dotDot_iff plain_oggExtension).mpr same)
  have output := renamed_of_ne_dot stem plain_oggExtension
  have wave := renamed_of_ne_dot stem plain_waveExtension
  rw [← renamed_renamed inner.entry.ne_nil stem plain_oggExtension] at wave
  refine ⟨⟨isMove_renamed plain_waveExtension, ?_, ?_⟩, ?_⟩
  · rw [Ne, renamed_eq_dotDot_iff plain_waveExtension, output,
      splitName_append (stem_splitName inner.entry.ne_nil).1 plain_oggExtension.undotted]
    exact stem
  · exact separator_not_mem_renamed entry.ne_nil entry.free plain_waveExtension
  · rw [wave, output, Ne, List.append_cancel_left_eq]
    decide

/-- The wave is an entry beside the output. -/
theorem wave (inner : relative.Inner front name) {verb : Verb} (converts : verb ≠ .copy)
    (named : verb.outputName name ≠ dotDot) :
    (Toolbox.scratchOf (Session.outputOf verb relative)).Inner front
      (renamed (verb.outputName name) Toolbox.waveExtension) := by
  obtain ⟨entry, -⟩ := inner.scratchName converts named
  exact ⟨(inner.bare_output verb).rename entry.move entry.free, inner.scratchOf_outputOf named,
    entry⟩

/-- Only what was copied can stand where another output has its wave. -/
theorem eq_copy_of_moves_wave (inner : relative.Inner front name) {verb : Verb}
    (converts : verb ≠ .copy) (named : verb.outputName name ≠ dotDot) {other : Path}
    {back : List Text} {last : Name} (second : other.Inner back last) {otherVerb : Verb}
    (same : (Toolbox.scratchOf (Session.outputOf verb relative)).moves =
      (Session.outputOf otherVerb other).moves) : otherVerb = .copy := by
  refine Decidable.of_not_not fun swaps => ?_
  have wave := inner.wave converts named
  rw [wave.moves, second.moves_outputOf] at same
  have names := List.singleton_inj.mp (List.append_inj_right' same rfl)
  have waveNamed := wave.entry.named
  rw [Verb.outputName_of_ne_copy swaps] at names
  have outputNamed : renamed last Verb.oggExtension ≠ dotDot := names ▸ waveNamed
  have waveStem := mt (renamed_eq_dotDot_iff plain_waveExtension).mpr waveNamed
  have outputStem := mt (renamed_eq_dotDot_iff plain_oggExtension).mpr outputNamed
  rw [renamed_of_ne_dot waveStem plain_waveExtension,
    renamed_of_ne_dot outputStem plain_oggExtension] at names
  exact absurd (List.append_inj_right' names rfl) (by decide)

/-- Where the wave stands, as seen from the directory that the output stands in. -/
theorem location_scratchOf (inner : relative.Inner front name) {verb : Verb} {root : Path}
    (converts : verb ≠ .copy) (given : root.text ≠ []) (named : verb.outputName name ≠ dotDot)
    (working : Location) :
    (Toolbox.scratchOf (root.join (Session.outputOf verb relative))).location working =
      (root.location working).along
        (front ++ [renamed (verb.outputName name) Toolbox.waveExtension]) := by
  have bare := (inner.wave converts named).bare
  rw [inner.scratchOf_eq given named, location_join given bare.isAbsolute, bare.moves,
    Location.along_filter]

/-- The wave stands elsewhere than the output. -/
theorem location_scratchOf_ne (inner : relative.Inner front name) {verb : Verb} {root : Path}
    (converts : verb ≠ .copy) (given : root.text ≠ []) (named : verb.outputName name ≠ dotDot)
    (working : Location) :
    (Toolbox.scratchOf (root.join (Session.outputOf verb relative))).location working ≠
      (root.join (Session.outputOf verb relative)).location working := by
  obtain ⟨entry, differs⟩ := inner.scratchName converts named
  rw [inner.location_scratchOf converts given named, inner.location_outputOf _ given,
    Location.along_concat entry, Location.along_concat (isEntry_outputName inner.entry named)]
  unfold Location.child
  simpa using differs

end Path.Inner

end AssetPipeline
