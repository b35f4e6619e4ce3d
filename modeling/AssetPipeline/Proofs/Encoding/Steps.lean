/-
This file says what encoding one file does, in a tree that may hold links. When it succeeds, the
source led to a regular file and the target leads to one that holds the encoding of what was read.
That is the whole source, unless the target leads to the source itself: the target is emptied before
anything is read, so then nothing is. However it ends, no other file has changed.
-/

import AssetPipeline.Encoding.Batch
import AssetPipeline.Proofs.Encoding.Transfer
import AssetPipeline.Proofs.FileTree.Opening

namespace AssetPipeline.Encoding

open FileTree (Sound Refiled Rewritten)

variable {key : Key} {tree later : FileTree} {source target : Path}

/-- Without a limit everything is written. -/
theorem encode_unlimited (key : Key) (reads : List (Read Fault)) :
    let coded := Stream.encode key reads .unlimited
    coded.1.taken = key.mask (Stream.delivered reads) ∧
      coded.2 = match Stream.failure? reads with
        | none => .ok (Stream.delivered reads).length
        | some failure => .error failure := by
  have account := Stream.account key reads .unlimited
  have all := account.complete.mpr fun room failure limited => nomatch limited
  dsimp only
  unfold Stream.encode
  rw [Stream.encodeFrom_eq_stopFrom]
  refine ⟨all, ?_⟩
  cases ends : Stream.failure? reads with
  | none => exact (account.succeeds _).mpr ⟨ends, all, rfl⟩
  | some failure => exact account.readerFails failure ends all

theorem delivered_readsOf_file (file : File) :
    Stream.delivered (readsOf (some (.file file))) = file.content ∧
      Stream.failure? (readsOf (some (.file file))) = none := by
  show Stream.delivered [.bytes file.content] = _ ∧ Stream.failure? [.bytes file.content] = _
  cases file.content with
  | nil => exact ⟨rfl, rfl⟩
  | cons head tail => exact ⟨List.append_nil _, rfl⟩

/-- What is read of a source when its target has been emptied: the whole source, unless the target
leads to it. -/
theorem delivered_of_emptied {emptied : FileTree} {origin landing : Location} {file : File}
    (there : tree.file? origin = some file) (opens : Rewritten tree emptied target landing []) :
    Stream.delivered (readsOf (emptied.node? origin)) =
        (if origin = landing then [] else file.content) ∧
      Stream.failure? (readsOf (emptied.node? origin)) = none := by
  split
  · next same =>
    obtain ⟨empty, found, none, -⟩ := opens.file
    rw [same, FileTree.file?_eq_some_iff.mp found, ← none]
    exact delivered_readsOf_file empty
  · next apart =>
    rw [opens.refiled.elsewhere apart, FileTree.file?_eq_some_iff.mp there]
    exact delivered_readsOf_file file

/-- A source that leads to `origin` has been encoded into a target that leads to `landing`. -/
structure Encoded (key : Key) (tree later : FileTree) (source target : Path)
    (origin landing : Location) : Prop where
  located : tree.locate source = .ok origin
  /-- A target that leads to the source is emptied before the source is read. -/
  file : ∃ file, tree.file? origin = some file ∧ file.mode.ownerReads = true ∧
    Rewritten tree later target landing
      (key.mask (if origin = landing then [] else file.content))

theorem openSource_eq_ok {origin : Location} (opened : openSource tree source = .ok origin) :
    tree.locate source = .ok origin ∧
      ∀ file, tree.file? origin = some file → file.mode.ownerReads = true := by
  unfold openSource at opened
  split at opened
  · cases opened
  next location located =>
  split at opened
  · next file there =>
    split at opened
    · next readable =>
      obtain rfl := Except.ok.inj opened
      exact ⟨located, fun other same => by
        obtain rfl := Option.some.inj (there.symm.trans same)
        exact readable⟩
    · cases opened
  · next none =>
    split at opened
    · cases opened
    · obtain rfl := Except.ok.inj opened
      exact ⟨located, fun other same => nomatch none.symm.trans same⟩

/-- Encoding one file leaves the tree alone, or it writes the target: without success when the
source leads to a directory, and else the source has been encoded into it. -/
theorem encodeInto_cases (sound : Sound tree) {answer : Except EncodingError Nat}
    (encoded : encodeInto tree source target key = (later, answer)) :
    (later = tree ∧ ∃ error, answer = .error error) ∨
      ∃ origin landing, tree.locate source = .ok origin ∧
        ((tree.isDirectoryAt origin = true ∧ ∃ error, answer = .error error) ∨
          (∃ count, answer = .ok count) ∧
            Encoded key tree later source target origin landing) := by
  unfold encodeInto at encoded
  split at encoded
  · next fault failed =>
    obtain ⟨rfl, rfl⟩ := Prod.mk.inj encoded
    exact Or.inl ⟨rfl, _, rfl⟩
  next origin opened =>
  obtain ⟨located, readable⟩ := openSource_eq_ok opened
  split at encoded
  · next fault failed =>
    obtain ⟨rfl, rfl⟩ := Prod.mk.inj encoded
    exact Or.inl ⟨rfl, _, rfl⟩
  next emptied landing created =>
  refine Or.inr ⟨origin, landing, located, ?_⟩
  have opens := FileTree.rewritten_of_create sound (by decide) created
  have coded := encode_unlimited key (readsOf (emptied.node? origin))
  dsimp only at coded
  obtain ⟨node, stands, unlinked⟩ := FileTree.occupied_of_locate sound located
  cases node with
  | link other => exact absurd rfl (unlinked other)
  | directory =>
    -- A directory can be opened, but not read.
    have directory := FileTree.isDirectoryAt_iff.mpr stands
    have still := (opens.refiled.isDirectoryAt origin).trans directory
    rw [FileTree.isDirectoryAt_iff.mp still] at coded encoded
    have failed : (Stream.encode key (readsOf (some .directory)) .unlimited).2 =
        .error Fault.isADirectory := coded.2
    split at encoded
    · next fault _ =>
      obtain ⟨-, rfl⟩ := Prod.mk.inj encoded
      exact Or.inl ⟨directory, _, rfl⟩
    · next writer count done =>
      rw [done] at failed
      cases failed
  | file file =>
    have there := FileTree.file?_eq_some_iff.mpr stands
    obtain ⟨read, ends⟩ := delivered_of_emptied there opens
    rw [ends, read] at coded
    right
    split at encoded
    · next writer fault failed =>
      rw [failed] at coded
      cases coded.2
    · next writer count done =>
      obtain ⟨rfl, rfl⟩ := Prod.mk.inj encoded
      rw [done] at coded
      refine ⟨⟨count, rfl⟩, located, file, there, readable file there, ?_⟩
      rw [← coded.1]
      exact opens.fill _

theorem encoded_of_encodeInto (sound : Sound tree) {count : Nat}
    (done : encodeInto tree source target key = (later, .ok count)) :
    ∃ origin landing, Encoded key tree later source target origin landing := by
  rcases encodeInto_cases sound done with
    ⟨-, error, failed⟩ | ⟨origin, landing, -, ⟨-, error, failed⟩ | ⟨-, encoded⟩⟩
  · cases failed
  · cases failed
  · exact ⟨origin, landing, encoded⟩

/-- A source that is no directory and cannot be encoded leaves everything as it is. -/
theorem eq_of_encodeInto_error (sound : Sound tree) {error : EncodingError}
    (leaf : ∀ origin, tree.locate source = .ok origin → tree.isDirectoryAt origin = false)
    (failed : encodeInto tree source target key = (later, .error error)) : later = tree := by
  rcases encodeInto_cases sound failed with
    ⟨same, -⟩ | ⟨origin, landing, located, ⟨directory, -⟩ | ⟨⟨count, done⟩, -⟩⟩
  · exact same
  · rw [leaf origin located] at directory
    cases directory
  · cases done

/-- A source that can be read is encoded into a target that can be written. -/
theorem encodeInto_of_files (sound : Sound tree) {origin landing : Location} {file copy : File}
    (located : tree.locate source = .ok origin) (there : tree.file? origin = some file)
    (readable : file.mode.ownerReads = true) (leads : tree.locate target = .ok landing)
    (found : tree.file? landing = some copy) (writable : copy.mode.ownerWrites = true) :
    ∃ later count, encodeInto tree source target key = (later, .ok count) := by
  have opened : openSource tree source = .ok origin := by
    unfold openSource
    rw [located]
    dsimp only
    rw [there]
    exact if_pos readable
  have lands := FileTree.file?_eq_some_iff.mp found
  have refiled := FileTree.refiled_put (FileTree.Room.of_node sound lands).below
    (Or.inr ⟨copy, lands⟩) ⟨[], tree.clock, copy.mode⟩
  obtain ⟨other, stands⟩ : ∃ other : File,
      (tree.put landing (.file ⟨[], tree.clock, copy.mode⟩)).node? origin = some (.file other) := by
    rcases refiled.node origin with same | ⟨-, new, -⟩
    · exact ⟨file, same.trans (FileTree.file?_eq_some_iff.mp there)⟩
    · exact new
  have coded := (encode_unlimited key (readsOf (some (.file other)))).2
  rw [(delivered_readsOf_file other).2] at coded
  unfold encodeInto
  rw [opened]
  dsimp only
  rw [FileTree.create_of_locate sound .ordinary leads found writable]
  dsimp only
  rw [stands]
  split
  · next writer fault failed =>
    rw [failed] at coded
    cases coded
  · exact ⟨_, _, rfl⟩

/-! ### Several files -/

/-- Sources are encoded one after the other, each beside itself. -/
inductive Encodes (key : Key) : FileTree → List Path → FileTree → Prop
  | nil (tree : FileTree) : Encodes key tree [] tree
  | cons {tree between later : FileTree} {source : Path} {rest : List Path} {count : Nat}
      (first : encodeInto tree source (markedPath source) key = (between, .ok count))
      (others : Encodes key between rest later) : Encodes key tree (source :: rest) later

theorem Encodes.append {between : FileTree} {first second : List Path}
    (one : Encodes key tree first between) (two : Encodes key between second later) :
    Encodes key tree (first ++ second) later := by
  induction one with
  | nil => exact two
  | cons first _ inductionHypothesis => exact .cons first (inductionHypothesis two)

/-- All of the sources are encoded, or those in front of one that cannot be. -/
theorem encodeAll_cases (key : Key) (sources : List Path) (tree : FileTree) :
    let outcome := encodeAll key sources tree
    (outcome.result = .ok (sources.map markedPath) ∧ Encodes key tree sources outcome.tree) ∨
      ∃ first source rest between error, sources = first ++ source :: rest ∧
        Encodes key tree first between ∧ outcome.result = .error error ∧
        encodeInto between source (markedPath source) key = (outcome.tree, .error error) := by
  induction sources generalizing tree with
  | nil => exact Or.inl ⟨rfl, .nil tree⟩
  | cons source rest inductionHypothesis =>
    unfold encodeAll
    dsimp only
    split
    · next between error failed =>
      exact Or.inr ⟨[], source, rest, tree, error, rfl, .nil tree, rfl, failed⟩
    · next between count done =>
      dsimp only
      rcases inductionHypothesis between with
        ⟨all, encodes⟩ | ⟨first, other, others, middle, error, rfl, encodes, failed, last⟩
      · refine Or.inl ⟨?_, .cons done encodes⟩
        rw [all]
        rfl
      · refine Or.inr ⟨source :: first, other, others, middle, error, rfl, .cons done encodes, ?_,
          last⟩
        rw [failed]
        rfl

/-! ### Several patterns -/

/-- Patterns are expanded one after the other, each once the files of those in front of it are
encoded. All the files that come up are the sources. -/
inductive Batch (key : Key) : FileTree → List Path → List Path → FileTree → Prop
  | nil (tree : FileTree) : Batch key tree [] [] tree
  | cons {tree between later : FileTree} {pattern : Path} {rest sources others : List Path}
      (expanded : expand tree pattern = .ok sources) (encodes : Encodes key tree sources between)
      (onwards : Batch key between rest others later) :
      Batch key tree (pattern :: rest) (sources ++ others) later

theorem Batch.encodes {patterns sources : List Path}
    (batch : Batch key tree patterns sources later) : Encodes key tree sources later := by
  induction batch with
  | nil tree => exact .nil tree
  | cons _ encodes _ inductionHypothesis => exact encodes.append inductionHypothesis

/-- How a batch stops at a pattern: the pattern cannot be expanded, or one of its files cannot be
encoded. -/
inductive Stops (key : Key) (tree : FileTree) (pattern : Path) (error : EncodingError) :
    FileTree → Prop
  | expanding (failed : expand tree pattern = .error error) : Stops key tree pattern error tree
  | encoding {between last : FileTree} {source : Path} {first rest : List Path}
      (expanded : expand tree pattern = .ok (first ++ source :: rest))
      (encodes : Encodes key tree first between)
      (failed : encodeInto between source (markedPath source) key = (last, .error error)) :
      Stops key tree pattern error last

/-- A batch goes through all of its patterns, or it goes through those in front of one that stops
it. -/
theorem encodeBatch_cases (key : Key) (patterns : List Path) (tree : FileTree) :
    let outcome := encodeBatch key patterns tree
    (∃ sources, outcome.result = .ok (sources.map markedPath) ∧
        Batch key tree patterns sources outcome.tree) ∨
      ∃ before pattern rest done between error, patterns = before ++ pattern :: rest ∧
        Batch key tree before done between ∧ outcome.result = .error error ∧
        Stops key between pattern error outcome.tree := by
  induction patterns generalizing tree with
  | nil => exact Or.inl ⟨[], rfl, .nil tree⟩
  | cons pattern rest inductionHypothesis =>
    unfold encodeBatch
    split
    · next error failed =>
      exact Or.inr ⟨[], pattern, rest, [], tree, error, rfl, .nil tree, rfl, .expanding failed⟩
    next sources expanded =>
    dsimp only
    rcases encodeAll_cases key sources tree with
      ⟨all, encodes⟩ | ⟨first, source, others, between, error, rfl, encodes, failed, last⟩
    · rw [all]
      dsimp only
      rcases inductionHypothesis (encodeAll key sources tree).tree with
        ⟨others, more, batch⟩ |
        ⟨before, other, behind, done, between, error, rfl, batch, failed, stops⟩
      · refine Or.inl ⟨sources ++ others, ?_, .cons expanded encodes batch⟩
        rw [more, List.map_append]
        rfl
      · refine Or.inr ⟨pattern :: before, other, behind, sources ++ done, between, error, rfl,
          .cons expanded encodes batch, ?_, stops⟩
        rw [failed]
        rfl
    · rw [failed]
      exact Or.inr ⟨[], pattern, rest, [], tree, error, rfl, .nil tree, rfl,
        .encoding expanded encodes last⟩

end AssetPipeline.Encoding
