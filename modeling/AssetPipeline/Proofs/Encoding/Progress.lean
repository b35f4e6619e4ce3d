/-
This file says how far a batch comes in a plain tree where no pattern would match an encoded copy.
Patterns are expanded while files are already being encoded, but the copies are put where no pattern
looks. So every pattern stands for the files that it stood for at the beginning, every file is
encoded as it was at the beginning, and wherever the batch stops, the files in front are encoded and
nothing else has changed. A batch that got through can be done again and then changes nothing.
-/

import AssetPipeline.Proofs.Encoding.Expansion
import AssetPipeline.Proofs.Encoding.Sources

namespace AssetPipeline.Encoding

open FileTree (Sound Plain Refiled)

variable {key : Key} {tree current later : FileTree} {patterns done sources : List Path}
  {source : Path}

/-- The files that patterns stand for, in the order of the patterns. -/
def listing (tree : FileTree) (patterns : List Path) : List Path :=
  patterns.flatMap fun pattern =>
    match expand tree pattern with
    | .ok files => files
    | .error _ => []

theorem mem_listing : source ∈ listing tree patterns ↔
    ∃ pattern ∈ patterns, ∃ files, expand tree pattern = .ok files ∧ source ∈ files := by
  unfold listing
  rw [List.mem_flatMap]
  refine exists_congr fun pattern => and_congr_right fun _ => ?_
  cases expand tree pattern with
  | error error => simp
  | ok files => simp

theorem mem_listing_of_among {some : List Path} (among : ∀ pattern ∈ some, pattern ∈ patterns)
    (member : source ∈ listing tree some) : source ∈ listing tree patterns := by
  obtain ⟨pattern, inSome, files, expanded, inside⟩ := mem_listing.mp member
  exact mem_listing.mpr ⟨pattern, among pattern inSome, files, expanded, inside⟩

theorem listing_cons {pattern : Path} {files : List Path}
    (expanded : expand tree pattern = .ok files) :
    listing tree (pattern :: patterns) = files ++ listing tree patterns := by
  unfold listing
  rw [List.flatMap_cons, expanded]

/-- No pattern would match an encoded copy. -/
def Unmatched (tree : FileTree) (patterns : List Path) : Prop :=
  ∀ source ∈ listing tree patterns, ∀ pattern ∈ patterns,
    (∃ files, expand tree pattern = .ok files) →
      ¬ Selects tree.workingDirectory pattern
        ((markedPath source).location tree.workingDirectory)

/-- A file of the listing is found by one of the patterns. -/
theorem found_of_mem_listing (plain : Plain tree) (member : source ∈ listing tree patterns) :
    ∃ pattern ∈ patterns, (∃ files, expand tree pattern = .ok files) ∧
      ∃ front last, Found tree pattern source front last := by
  obtain ⟨pattern, among, files, expanded, inside⟩ := mem_listing.mp member
  exact ⟨pattern, among, ⟨files, expanded⟩, (mem_expand_iff plain expanded).mp inside⟩

/-- The places where encoded copies of files are put. -/
def Copies (tree : FileTree) (done : List Path) (place : Location) : Prop :=
  ∃ source ∈ done, place = (markedPath source).location tree.workingDirectory

/-- No file of the listing is where a copy is put. -/
theorem Unmatched.apart (unmatched : Unmatched tree patterns) (plain : Plain tree)
    (within : ∀ other ∈ done, other ∈ listing tree patterns)
    (member : source ∈ listing tree patterns) :
    ¬ Copies tree done (source.location tree.workingDirectory) := by
  rintro ⟨other, inDone, same⟩
  obtain ⟨pattern, among, expanded, front, last, found⟩ := found_of_mem_listing plain member
  exact unmatched other (within other inDone) pattern among expanded (same ▸ found.selects)

/-! ### Progress -/

/-- A source has been encoded as it was in an earlier tree. -/
structure Coded (key : Key) (tree later : FileTree) (source : Path) (file copy : File) : Prop where
  located : tree.locate source = .ok (source.location tree.workingDirectory)
  there : tree.file? (source.location tree.workingDirectory) = some file
  readable : file.mode.ownerReads = true
  leads : later.locate (markedPath source) =
    .ok ((markedPath source).location tree.workingDirectory)
  found : later.file? ((markedPath source).location tree.workingDirectory) = some copy
  content : copy.content = key.mask file.content
  writable : copy.mode.ownerWrites = true

/-- Some sources have been encoded as they were, and nothing else has changed. -/
structure Progress (key : Key) (tree later : FileTree) (done : List Path) : Prop where
  sound : Sound later
  refiled : Refiled tree later (Copies tree done)
  coded : ∀ source ∈ done, ∃ file copy, Coded key tree later source file copy

namespace Progress

theorem start (sound : Sound tree) : Progress key tree tree [] :=
  ⟨sound, .refl tree _, fun _ member => nomatch member⟩

theorem plain (progress : Progress key tree later done) (plain : Plain tree) : Plain later :=
  progress.refiled.plain plain progress.sound

theorem congr {others : List Path} (progress : Progress key tree later done)
    (same : ∀ source, source ∈ others ↔ source ∈ done) : Progress key tree later others where
  sound := progress.sound
  refiled := progress.refiled.mono fun _ ⟨source, member, there⟩ =>
    ⟨source, (same source).mpr member, there⟩
  coded source member := progress.coded source ((same source).mp member)

/-- A file of the listing is as it was. -/
theorem file?_eq (progress : Progress key tree later done) (plain : Plain tree)
    (unmatched : Unmatched tree patterns) (within : ∀ other ∈ done, other ∈ listing tree patterns)
    (member : source ∈ listing tree patterns) :
    later.file? (source.location tree.workingDirectory) =
      tree.file? (source.location tree.workingDirectory) :=
  FileTree.file?_congr (progress.refiled.elsewhere (unmatched.apart plain within member))

/-- One more file of the listing is encoded. -/
theorem step {count : Nat} (progress : Progress key tree current done) (plain : Plain tree)
    (unmatched : Unmatched tree patterns) (within : ∀ other ∈ done, other ∈ listing tree patterns)
    (member : source ∈ listing tree patterns)
    (encoded : encodeInto current source (markedPath source) key = (later, .ok count)) :
    Progress key tree later (done ++ [source]) := by
  have plainCurrent := progress.plain plain
  have working := progress.refiled.working
  obtain ⟨origin, landing, located, file, there, readable, rewritten⟩ :=
    encoded_of_encodeInto progress.sound encoded
  have plainLater := rewritten.refiled.plain plainCurrent rewritten.sound
  obtain ⟨reaches, rfl⟩ := (FileTree.locate_eq_ok_iff plainCurrent).mp located
  obtain ⟨-, rfl⟩ := (FileTree.locate_eq_ok_iff plainLater).mp rewritten.leads
  rw [rewritten.refiled.working, working] at rewritten
  rw [working] at located there
  have was := (progress.file?_eq plain unmatched within member).symm.trans there
  have apart : source.location tree.workingDirectory ≠
      (markedPath source).location tree.workingDirectory := fun same =>
    unmatched.apart plain (fun other inside => List.mem_singleton.mp inside ▸ member) member
      ⟨source, List.mem_singleton_self source, same⟩
  rw [if_neg apart] at rewritten
  obtain ⟨copy, found, content, writable⟩ := rewritten.file
  have stood : (tree.node? (source.location tree.workingDirectory)).isSome = true :=
    FileTree.node?_isSome_of_file?_isSome (by rw [was]; rfl)
  refine ⟨rewritten.sound, (progress.refiled.mono ?_).trans (rewritten.refiled.mono ?_), ?_⟩
  · rintro place ⟨other, inDone, same⟩
    exact ⟨other, List.mem_append_left _ inDone, same⟩
  · rintro place rfl
    exact ⟨source, List.mem_append_right _ (List.mem_singleton_self _), rfl⟩
  · intro other inside
    rcases List.mem_append.mp inside with inDone | last
    · obtain ⟨before, old, coded⟩ := progress.coded other inDone
      by_cases same : (markedPath other).location tree.workingDirectory =
          (markedPath source).location tree.workingDirectory
      · -- Files with one place for their copies are the same file.
        obtain ⟨_, -, -, front, name, first⟩ := found_of_mem_listing plain (within other inDone)
        obtain ⟨_, -, -, back, final, second⟩ := found_of_mem_listing plain member
        have one := first.location_injective second same
        obtain rfl := Option.some.inj (coded.there.symm.trans (one ▸ was))
        exact ⟨before, copy, coded.located, coded.there, coded.readable,
          rewritten.refiled.locate progress.sound rewritten.sound coded.leads, same ▸ found,
          content, writable⟩
      · refine ⟨before, old, coded.located, coded.there, coded.readable,
          rewritten.refiled.locate progress.sound rewritten.sound coded.leads, ?_, coded.content,
          coded.writable⟩
        rw [FileTree.file?_congr (rewritten.refiled.elsewhere same)]
        exact coded.found
    · obtain rfl := List.mem_singleton.mp last
      exact ⟨file, copy, progress.refiled.locate_earlier plain.toSound progress.sound located stood,
        was, readable, rewritten.leads, found, content, writable⟩

/-- A file of the listing that cannot be encoded leaves everything as it is. -/
theorem eq_of_error {error : EncodingError} (progress : Progress key tree current done)
    (plain : Plain tree) (unmatched : Unmatched tree patterns)
    (within : ∀ other ∈ done, other ∈ listing tree patterns)
    (member : source ∈ listing tree patterns)
    (failed : encodeInto current source (markedPath source) key = (later, .error error)) :
    later = current := by
  refine eq_of_encodeInto_error progress.sound (fun origin located => ?_) failed
  obtain ⟨-, rfl⟩ := (FileTree.locate_eq_ok_iff (progress.plain plain)).mp located
  obtain ⟨_, -, -, front, last, found⟩ := found_of_mem_listing plain member
  have there := found.there
  rw [← found.location_eq, ← progress.file?_eq plain unmatched within member,
    ← progress.refiled.working] at there
  obtain ⟨file, there⟩ := Option.isSome_iff_exists.mp there
  exact (FileTree.Room.of_file (progress.plain plain) there).leaf

/-- Files of the listing are encoded one after the other. -/
theorem run (progress : Progress key tree current done) (plain : Plain tree)
    (unmatched : Unmatched tree patterns) (within : ∀ other ∈ done, other ∈ listing tree patterns)
    (members : ∀ source ∈ sources, source ∈ listing tree patterns)
    (encodes : Encodes key current sources later) : Progress key tree later (done ++ sources) := by
  induction encodes generalizing done with
  | nil => rwa [List.append_nil]
  | @cons current between later source rest count first others inductionHypothesis =>
    have member := members source List.mem_cons_self
    rw [← List.singleton_append, ← List.append_assoc]
    refine inductionHypothesis (progress.step plain unmatched within member first) ?_
      fun other inRest => members other (List.mem_cons_of_mem _ inRest)
    intro other inside
    rcases List.mem_append.mp inside with inDone | last
    · exact within other inDone
    · exact List.mem_singleton.mp last ▸ member

/-- A pattern stands for the files it stood for at the beginning. -/
theorem expand_eq_ok_iff {pattern : Path} {files : List Path}
    (progress : Progress key tree current done) (plain : Plain tree)
    (unmatched : Unmatched tree patterns) (within : ∀ other ∈ done, other ∈ listing tree patterns)
    (among : pattern ∈ patterns) :
    expand current pattern = .ok files ↔ expand tree pattern = .ok files := by
  have plainCurrent := progress.plain plain
  have stable : ∀ files, expand tree pattern = .ok files → expand current pattern = .ok files := by
    intro files expanded
    refine expand_stable plain plainCurrent progress.refiled ?_ expanded
    rintro place ⟨other, inDone, rfl⟩
    exact unmatched other (within other inDone) pattern among ⟨files, expanded⟩
  refine ⟨fun expanded => ?_, stable files⟩
  obtain ⟨others, before⟩ := expand_isOk_of_directories plainCurrent plain
    progress.refiled.working.symm (fun place => (progress.refiled.isDirectoryAt place).symm)
    (fun place => (progress.refiled.closed place).symm) ⟨files, expanded⟩
  rw [before, ← stable others before, expanded]

/-- Patterns are gone through one after the other. -/
theorem batch {some : List Path} (progress : Progress key tree current done) (plain : Plain tree)
    (unmatched : Unmatched tree patterns) (within : ∀ other ∈ done, other ∈ listing tree patterns)
    (among : ∀ pattern ∈ some, pattern ∈ patterns) (batch : Batch key current some sources later) :
    Progress key tree later (done ++ sources) ∧
      (∀ pattern ∈ some, ∃ files, expand tree pattern = .ok files) ∧
      sources = listing tree some := by
  induction batch generalizing done with
  | nil =>
    rw [List.append_nil]
    exact ⟨progress, fun _ member => (nomatch member), rfl⟩
  | @cons current between later pattern rest sources others expanded encodes onwards
      inductionHypothesis =>
    have here := among pattern List.mem_cons_self
    have before := (progress.expand_eq_ok_iff plain unmatched within here).mp expanded
    have members : ∀ source ∈ sources, source ∈ listing tree patterns := fun source inside =>
      mem_listing.mpr ⟨pattern, here, sources, before, inside⟩
    have withinBoth : ∀ other ∈ done ++ sources, other ∈ listing tree patterns := by
      intro other inside
      rcases List.mem_append.mp inside with inDone | new
      · exact within other inDone
      · exact members other new
    obtain ⟨further, each, rfl⟩ := inductionHypothesis
      (progress.run plain unmatched within members encodes) withinBoth
      fun pattern inRest => among pattern (List.mem_cons_of_mem _ inRest)
    rw [← List.append_assoc]
    refine ⟨further, fun pattern inside => ?_, (listing_cons before).symm⟩
    rcases List.mem_cons.mp inside with rfl | inRest
    · exact ⟨sources, before⟩
    · exact each pattern inRest

/-! ### A batch done again -/

/-- Trees with the same progress hold the same. -/
theorem contentAt?_eq {last : FileTree} (progress : Progress key tree later done)
    (other : Progress key tree last done) (place : Location) :
    contentAt? last place = contentAt? later place := by
  by_cases copied : Copies tree done place
  · obtain ⟨source, inDone, rfl⟩ := copied
    obtain ⟨file, copy, coded⟩ := progress.coded source inDone
    obtain ⟨otherFile, otherCopy, recoded⟩ := other.coded source inDone
    obtain rfl := Option.some.inj (coded.there.symm.trans recoded.there)
    unfold contentAt?
    rw [coded.found, recoded.found, Option.map_some, Option.map_some, coded.content,
      recoded.content]
  · unfold contentAt?
    rw [FileTree.file?_congr (progress.refiled.elsewhere copied),
      FileTree.file?_congr (other.refiled.elsewhere copied)]

theorem of_clock (progress : Progress key tree later done) (clock : Instant) :
    Progress key tree { later with clock := clock } done := by
  have sound : Sound { later with clock := clock } :=
    ⟨progress.sound.distinct, progress.sound.named, progress.sound.housed⟩
  have refiled := Refiled.of_clock later clock (Copies tree done)
  refine ⟨sound, progress.refiled.trans refiled, fun source inDone => ?_⟩
  obtain ⟨file, copy, coded⟩ := progress.coded source inDone
  exact ⟨file, copy, coded.located, coded.there, coded.readable,
    refiled.locate progress.sound sound coded.leads, coded.found, coded.content, coded.writable⟩

/-- A file that has been encoded can be encoded again. -/
theorem again (progress : Progress key tree current done) (plain : Plain tree)
    (unmatched : Unmatched tree patterns) (within : ∀ other ∈ done, other ∈ listing tree patterns)
    (inDone : source ∈ done) :
    ∃ later count, encodeInto current source (markedPath source) key = (later, .ok count) := by
  obtain ⟨file, copy, coded⟩ := progress.coded source inDone
  have there := progress.file?_eq plain unmatched within (within source inDone)
  exact encodeInto_of_files progress.sound
    (progress.refiled.locate plain.toSound progress.sound coded.located)
    (there.trans coded.there) coded.readable coded.leads coded.found coded.writable

/-- So can all files of a batch that got through. -/
theorem batch_again (progress : Progress key tree current (listing tree patterns))
    (plain : Plain tree) (unmatched : Unmatched tree patterns)
    (each : ∀ pattern ∈ patterns, ∃ files, expand tree pattern = .ok files) :
    (encodeBatch key patterns current).result = .ok ((listing tree patterns).map markedPath) ∧
      Progress key tree (encodeBatch key patterns current).tree (listing tree patterns) := by
  have within : ∀ other ∈ listing tree patterns, other ∈ listing tree patterns := fun _ => id
  -- Files that were encoded already add nothing to the progress.
  have absorb : ∀ {later : FileTree} {more : List Path},
      (∀ source ∈ more, source ∈ listing tree patterns) →
        Progress key tree later (listing tree patterns ++ more) →
          Progress key tree later (listing tree patterns) := fun inside further =>
    further.congr fun source => by
      rw [List.mem_append]
      exact ⟨Or.inl, fun either => either.elim id (inside source)⟩
  rcases encodeBatch_cases key patterns current with
    ⟨sources, all, batch⟩ | ⟨before, pattern, rest, more, between, error, whole, batch, -, stops⟩
  · obtain ⟨further, -, rfl⟩ := progress.batch plain unmatched within (fun _ => id) batch
    exact ⟨all, absorb within further⟩
  · have among : ∀ other ∈ before, other ∈ patterns := fun other inside =>
      whole ▸ List.mem_append_left _ inside
    have here : pattern ∈ patterns := whole ▸ List.mem_append_right _ List.mem_cons_self
    obtain ⟨further, -, rfl⟩ := progress.batch plain unmatched within among batch
    have between := absorb (fun _ => mem_listing_of_among among) further
    obtain ⟨files, expanded⟩ := each pattern here
    have reexpanded := (between.expand_eq_ok_iff plain unmatched within here).mpr expanded
    cases stops with
    | expanding failed =>
      rw [reexpanded] at failed
      cases failed
    | @encoding middle last source first others expandedThere encodes failed =>
      obtain rfl := Except.ok.inj (reexpanded.symm.trans expandedThere)
      have members : ∀ other ∈ first ++ source :: others, other ∈ listing tree patterns :=
        fun other inside => mem_listing.mpr ⟨pattern, here, _, expanded, inside⟩
      have inFirst : ∀ other ∈ first, other ∈ listing tree patterns := fun other inside =>
        members other (List.mem_append_left _ inside)
      obtain ⟨later, count, succeeds⟩ :=
        (absorb inFirst (between.run plain unmatched within inFirst encodes)).again plain unmatched
          within (members source (List.mem_append_right _ List.mem_cons_self))
      rw [succeeds] at failed
      cases failed

end Progress

/-! ### What becomes of a batch -/

/-- Files are encoded, each as it was in an earlier tree, and nothing else has changed. -/
structure Completes (key : Key) (tree later : FileTree) (sources : List Path) : Prop where
  coded : ∀ source ∈ sources, ∃ file copy, tree.fileAt? source = some file ∧
    later.fileAt? (markedPath source) = some copy ∧ copy.content = key.mask file.content
  elsewhere : ∀ place,
    (∀ source ∈ sources, place ≠ (markedPath source).location tree.workingDirectory) →
      later.node? place = tree.node? place
  closed : ∀ place, later.isClosedAt place = tree.isClosedAt place

theorem Progress.completes (progress : Progress key tree later done) :
    Completes key tree later done where
  coded source inDone := by
    obtain ⟨file, copy, coded⟩ := progress.coded source inDone
    exact ⟨file, copy, FileTree.fileAt?_eq_some_iff_locate.mpr ⟨_, coded.located, coded.there⟩,
      FileTree.fileAt?_eq_some_iff_locate.mpr ⟨_, coded.leads, coded.found⟩, coded.content⟩
  elsewhere place apart :=
    progress.refiled.elsewhere fun ⟨source, inDone, same⟩ => apart source inDone same
  closed := progress.refiled.closed

/-- A batch got through: every pattern could be expanded, the files of the listing are encoded in
its order, and doing it again, at whatever time, gives the same answer and leaves all files as they
are. -/
structure Finishes (key : Key) (tree : FileTree) (patterns : List Path) (outcome : Outcome)
    (written : List Path) : Prop where
  expanded : ∀ pattern ∈ patterns, ∃ files, expand tree pattern = .ok files
  inOrder : written = (listing tree patterns).map markedPath
  completes : Completes key tree outcome.tree (listing tree patterns)
  again : ∀ clock, (encodeBatch key patterns { outcome.tree with clock := clock }).result =
      .ok written ∧
    ∀ place, contentAt? (encodeBatch key patterns { outcome.tree with clock := clock }).tree place =
      contentAt? outcome.tree place

/-- A batch stopped: at a pattern that cannot be expanded, or at a file that cannot be encoded. The
files in front of it are encoded. -/
inductive Halts (key : Key) (tree : FileTree) (patterns : List Path) (outcome : Outcome)
    (error : EncodingError) : Prop
  | expanding {before rest : List Path} {pattern : Path}
      (whole : patterns = before ++ pattern :: rest)
      (expanded : ∀ other ∈ before, ∃ files, expand tree other = .ok files)
      (fails : ∀ files, expand tree pattern ≠ .ok files)
      (failed : expand outcome.tree pattern = .error error)
      (completes : Completes key tree outcome.tree (listing tree before))
  | encoding {before rest first others : List Path} {pattern source : Path}
      (whole : patterns = before ++ pattern :: rest)
      (expanded : ∀ other ∈ before, ∃ files, expand tree other = .ok files)
      (here : expand tree pattern = .ok (first ++ source :: others))
      (failed : encodeInto outcome.tree source (markedPath source) key =
        (outcome.tree, .error error))
      (completes : Completes key tree outcome.tree (listing tree before ++ first))

/-- A batch that stops has gone through the patterns in front as if it had them alone. -/
theorem halts_of_stops {before rest : List Path} {pattern : Path} {error : EncodingError}
    {outcome : Outcome} (plain : Plain tree) (unmatched : Unmatched tree patterns)
    (whole : patterns = before ++ pattern :: rest) (batch : Batch key tree before done current)
    (stops : Stops key current pattern error outcome.tree) :
    Halts key tree patterns outcome error := by
  have among : ∀ other ∈ before, other ∈ patterns := fun other inside =>
    whole ▸ List.mem_append_left _ inside
  have here : pattern ∈ patterns := whole ▸ List.mem_append_right _ List.mem_cons_self
  have within : ∀ source ∈ listing tree before, source ∈ listing tree patterns :=
    fun _ => mem_listing_of_among among
  obtain ⟨progress, each, rfl⟩ := (Progress.start plain.toSound).batch plain unmatched
    (fun _ member => nomatch member) among batch
  rw [List.nil_append] at progress
  have stable : ∀ files, expand current pattern = .ok files ↔ expand tree pattern = .ok files :=
    fun files => progress.expand_eq_ok_iff plain unmatched within here
  obtain ⟨last, announced, result⟩ := outcome
  dsimp only at stops
  cases stops with
  | expanding unexpanded =>
    refine .expanding whole each (fun files expanded => ?_) unexpanded progress.completes
    rw [(stable files).mpr expanded] at unexpanded
    cases unexpanded
  | @encoding middle last source first others expanded encodes unencoded =>
    have initially := (stable _).mp expanded
    have members : ∀ other ∈ first ++ source :: others, other ∈ listing tree patterns :=
      fun other inside => mem_listing.mpr ⟨pattern, here, _, initially, inside⟩
    have inFirst : ∀ other ∈ first, other ∈ listing tree patterns := fun other inside =>
      members other (List.mem_append_left _ inside)
    have withinBoth : ∀ other ∈ listing tree before ++ first, other ∈ listing tree patterns :=
      fun other inside => (List.mem_append.mp inside).elim (within other) (inFirst other)
    have further := progress.run plain unmatched within inFirst encodes
    obtain rfl := further.eq_of_error plain unmatched withinBoth
      (members source (List.mem_append_right _ List.mem_cons_self)) unencoded
    exact .encoding whole each initially unencoded further.completes

/-- In a plain tree where no pattern would match an encoded copy, a batch that succeeds has encoded
the files that the patterns stood for at the beginning, in their order and as they were, and nothing
else has changed; done again it changes nothing. A batch that fails has encoded the files in front
of the one that failed, or of the pattern that failed, and nothing else has changed.

A file fails because it cannot be opened to read, or because its copy cannot be opened to write.
Once both are open the transfer does not stop half-way, since a regular file is read to its end and
there is room for whatever is written: a reader or a writer that fails is met only by streams. -/
theorem batch_account (key : Key) (plain : Plain tree) (unmatched : Unmatched tree patterns) :
    (∀ written, (encodeBatch key patterns tree).result = .ok written →
        Finishes key tree patterns (encodeBatch key patterns tree) written) ∧
      ∀ error, (encodeBatch key patterns tree).result = .error error →
        Halts key tree patterns (encodeBatch key patterns tree) error := by
  rcases encodeBatch_cases key patterns tree with
    ⟨sources, all, batch⟩ |
    ⟨before, pattern, rest, done, between, error, whole, batch, failed, stops⟩
  · constructor
    · intro written ended
      obtain rfl := Except.ok.inj (all.symm.trans ended)
      obtain ⟨progress, each, rfl⟩ := (Progress.start plain.toSound).batch plain unmatched
        (fun _ member => nomatch member) (fun _ => id) batch
      rw [List.nil_append] at progress
      refine ⟨each, rfl, progress.completes, fun clock => ?_⟩
      obtain ⟨same, again⟩ := (progress.of_clock clock).batch_again plain unmatched each
      exact ⟨same, progress.contentAt?_eq again⟩
    · intro error ended
      rw [all] at ended
      cases ended
  · constructor
    · intro written ended
      rw [failed] at ended
      cases ended
    · intro other ended
      obtain rfl := Except.error.inj (failed.symm.trans ended)
      exact halts_of_stops plain unmatched whole batch stops

/-- A level in a directory, and notes beside it. -/
def oneLevel : FileTree where
  nodes := [
    ([['s']], .directory),
    ([['s'], ['a', '.', 'd']], .file ⟨[104, 105], ⟨1000, 0⟩, .ordinary⟩),
    ([['s'], ['n']], .file ⟨[], ⟨1000, 0⟩, .ordinary⟩)]
  workingDirectory := []
  clock := ⟨2000, 0⟩

/-- All levels, at any depth. -/
def allLevels : List Path := [⟨['*', '.', 'd']⟩]

theorem batch_account_oneLevel :
    (Plain oneLevel ∧ Unmatched oneLevel allLevels) ∧
      Finishes .standard oneLevel allLevels (encodeBatch .standard allLevels oneLevel)
        [⟨['.', '/', 's', '/', 'a', '.', 'd', 'x']⟩] := by
  have plain : Plain oneLevel := by decide +kernel
  have unmatched : Unmatched oneLevel allLevels := by
    have listed : listing oneLevel allLevels = [⟨['.', '/', 's', '/', 'a', '.', 'd']⟩] := by
      decide +kernel
    rintro source member pattern among - ⟨name, front, last, named, accepted, place⟩
    obtain rfl := List.mem_singleton.mp (listed ▸ member)
    obtain rfl := List.mem_singleton.mp among
    obtain rfl : ['*', '.', 'd'] = name := Option.some.inj named
    have ends := congrArg List.getLast? place
    rw [← List.append_assoc, List.getLast?_concat] at ends
    obtain rfl : ['a', '.', 'd', 'x'] = last := Option.some.inj ends
    exact absurd accepted (by decide +kernel)
  exact ⟨⟨plain, unmatched⟩, (batch_account .standard plain unmatched).1 _ (by decide +kernel)⟩

end AssetPipeline.Encoding
