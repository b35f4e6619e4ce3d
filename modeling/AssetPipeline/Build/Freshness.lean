/-
This file decides whether an output has to be built from its source. It is current when both are
regular files and the source was modified no later than the output; in every other case it has
to be built, and a source that is missing fails then.
-/

import AssetPipeline.FileTree.Lookup

namespace AssetPipeline

/-- What to do about an output. -/
inductive Decision where
  | rebuild
  | upToDate
  deriving DecidableEq

namespace FileTree

/-- Does `target` have to be built from `source`? -/
def decision (tree : FileTree) (source target : Path) : Decision :=
  match tree.fileAt? target, tree.fileAt? source with
  | some targetFile, some sourceFile =>
    if sourceFile.modified.notAfter targetFile.modified then .upToDate else .rebuild
  | _, _ => .rebuild

/-- An output is up to date exactly when both files are there and the source is no newer. -/
theorem decision_eq_upToDate_iff {tree : FileTree} {source target : Path} :
    tree.decision source target = .upToDate ↔
      ∃ sourceFile targetFile, tree.fileAt? source = some sourceFile ∧
        tree.fileAt? target = some targetFile ∧
        sourceFile.modified.notAfter targetFile.modified = true := by
  unfold decision
  split
  · next targetFile sourceFile targetEq sourceEq => split <;> simp_all
  · next absent =>
    simp only [reduceCtorEq, false_iff]
    rintro ⟨sourceFile, targetFile, sourceEq, targetEq, -⟩
    exact absent _ _ targetEq sourceEq

end FileTree

end AssetPipeline
