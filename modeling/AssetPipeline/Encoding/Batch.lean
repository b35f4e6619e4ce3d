/-
This file encodes files of the file tree: one file, or every file that a list of patterns stands
for. The encoded copy of a file stands beside it, with an `x` behind its name.
-/

import AssetPipeline.Selection.Wildcard
import AssetPipeline.FileTree.Files
import AssetPipeline.FileTree.Walk
import AssetPipeline.Encoding.Stream

namespace AssetPipeline

/-- Why encoding stopped. -/
inductive EncodingError where
  | opening (source : Path) (fault : Fault)
  | creating (target : Path) (fault : Fault)
  /-- Reading or writing failed. -/
  | transferring (source : Path) (fault : Fault)
  | noFileName (pattern : Path)
  /-- The directory part of a pattern is not a directory. -/
  | noDirectory (directory : Path)
  /-- The walk through the directory stopped. -/
  | walk (directory : Path) (error : WalkError)
  deriving DecidableEq

namespace EncodingError

/-- The words of an error and of its causes, the error first. -/
def causes : EncodingError → List String
  | .opening source fault => [s!"Failed to open: {source}", fault.message]
  | .creating target fault => [s!"Failed to create: {target}", fault.message]
  | .transferring source fault => [s!"Failed to encode: {source}", fault.message]
  | .noFileName pattern => [s!"Pattern has no file name: {pattern}"]
  | .noDirectory directory => [s!"Directory not found: {directory}"]
  | .walk directory (.unreadable path fault) =>
    [s!"Failed to list: {directory}", (WalkError.unreadable path fault).message, fault.message]
  | .walk directory error => [s!"Failed to list: {directory}", error.message]

/-- The words of an error with its causes behind it. -/
def message (error : EncodingError) : String := ": ".intercalate error.causes

end EncodingError

namespace Encoding

/-- What the encoded copy of a file has behind its name. -/
def mark : Text := ['x']

/-- Where the encoded copy of a file goes. -/
def markedPath (path : Path) : Path := ⟨path.text ++ mark⟩

/-- What reading a node gives, piece by piece. A directory opens but does not read. -/
def readsOf : Option Node → List (Read Fault)
  | some (.file file) => [.bytes file.content]
  | some .directory => [.failed .isADirectory]
  | _ => []

/-- Open a file or directory to read. -/
def openSource (tree : FileTree) (source : Path) : Except Fault Location :=
  match tree.locate source with
  | .error fault => .error fault
  | .ok location =>
    match tree.file? location with
    | some file => if file.mode.ownerReads then .ok location else .error .permissionDenied
    | none => if tree.isClosedAt location then .error .permissionDenied else .ok location

/-- Encode one file into another. The target is created, or emptied, before anything is read. There
is room for whatever is written, so only the reading can fail: that of a directory. -/
def encodeInto (tree : FileTree) (source target : Path) (key : Key) :
    FileTree × Except EncodingError Nat :=
  match openSource tree source with
  | .error fault => (tree, .error (.opening source fault))
  | .ok opened =>
    match tree.create target .ordinary with
    | .error fault => (tree, .error (.creating target fault))
    | .ok (created, location) =>
      match Stream.encode key (readsOf (created.node? opened)) .unlimited with
      | (writer, .error fault) =>
        (created.fill location writer.taken, .error (.transferring source fault))
      | (writer, .ok count) => (created.fill location writer.taken, .ok count)

/-- The directory part of a pattern; without one, the working directory. -/
def directoryOf (pattern : Path) : Path :=
  match pattern.parent? with
  | some parent => if parent.text = [] then ⟨Path.dot⟩ else parent
  | none => ⟨Path.dot⟩

/-- The files a pattern stands for: those at any depth below its directory part whose name
matches its last name. -/
def expand (tree : FileTree) (pattern : Path) : Except EncodingError (List Path) :=
  let directory := directoryOf pattern
  match pattern.fileName? with
  | none => .error (.noFileName pattern)
  | some name =>
    match tree.lookup directory, tree.locate directory with
    | .ok .directory, .ok location =>
      match tree.walk directory location with
      | .error error => .error (.walk directory error)
      | .ok files =>
        .ok (Path.sorted (files.filter fun file =>
          Wildcard.accept name (file.fileName?.getD file.text)))
    | _, _ => .error (.noDirectory directory)

/-- What a batch did: the paths it announced, the tree it left, and the paths it wrote, or why it
stopped. -/
structure Outcome where
  tree : FileTree
  announced : List Path
  result : Except EncodingError (List Path)

/-- Encode files, one after the other, up to the first error. -/
def encodeAll (key : Key) : List Path → FileTree → Outcome
  | [], tree => ⟨tree, [], .ok []⟩
  | source :: rest, tree =>
    let target := markedPath source
    match encodeInto tree source target key with
    | (tree, .error error) => ⟨tree, [target], .error error⟩
    | (tree, .ok _) =>
      let others := encodeAll key rest tree
      ⟨others.tree, target :: others.announced, others.result.map (target :: ·)⟩

/-- Encode the files that patterns stand for. Each pattern is expanded once those in front of it
are done. -/
def encodeBatch (key : Key) : List Path → FileTree → Outcome
  | [], tree => ⟨tree, [], .ok []⟩
  | pattern :: rest, tree =>
    match expand tree pattern with
    | .error error => ⟨tree, [], .error error⟩
    | .ok sources =>
      let first := encodeAll key sources tree
      match first.result with
      | .error error => ⟨first.tree, first.announced, .error error⟩
      | .ok written =>
        let others := encodeBatch key rest first.tree
        ⟨others.tree, first.announced ++ others.announced, others.result.map (written ++ ·)⟩

/-- What announcing a path adds to the log. -/
def announcement (target : Path) : String := s!"Encoding file {target}\n"

end Encoding

end AssetPipeline
