/-
This file says what the separators of a wildcard mean. They part the names of the directory part
from each other and from the pattern, and that is all: which of the two characters stands there, how
many of them in a row, and whether any stand at the very front makes no difference. So wildcards
that are spelled alike stand for the same files in every tree, and fail alike where they fail.
Conversely the names and the pattern tell the spelling but for its separators.
-/

import AssetPipeline.Proofs.Text.Pieces
import AssetPipeline.Selection.Basic
import Mathlib.Data.List.TakeWhile
import Mathlib.Logic.Relation

namespace AssetPipeline.Selection

open Relation (EqvGen)

variable {wildcard other : Text} {separator : Char}

/-! ### Cutting a wildcard -/

/-- A separator in front of what has none is where a wildcard is cut. -/
theorem ofWildcard_append {directory pattern : Text}
    (free : ∀ character ∈ pattern, isSeparator character = false)
    (ends : directory = [] ∨
      ∃ stem last, isSeparator last = true ∧ directory = stem ++ [last]) :
    ofWildcard (directory ++ pattern) = ⟨directory, pattern⟩ := by
  have stays : ∀ character ∈ pattern.reverse, (!isSeparator character) = true := by
    intro character member
    rw [free character (List.mem_reverse.mp member)]
    rfl
  have stops : directory.reverse.takeWhile (!isSeparator ·) = [] ∧
      directory.reverse.dropWhile (!isSeparator ·) = directory.reverse := by
    rcases ends with rfl | ⟨stem, last, cuts, rfl⟩
    · exact ⟨rfl, rfl⟩
    · rw [List.reverse_concat]
      simp [cuts]
  unfold ofWildcard
  rw [List.reverse_append, List.takeWhile_append_of_pos stays, List.dropWhile_append_of_pos stays,
    stops.1, stops.2, List.append_nil, List.reverse_reverse, List.reverse_reverse]

/-- A pattern holds no separator. -/
theorem isSeparator_of_mem_pattern {character : Char}
    (inside : character ∈ (ofWildcard wildcard).pattern) : isSeparator character = false := by
  have stays := List.mem_takeWhile_imp (List.mem_reverse.mp inside)
  simpa using stays

/-- A directory part ends with a separator, unless there is none. -/
theorem directory_ends (wildcard : Text) : (ofWildcard wildcard).directory = [] ∨
    ∃ stem last, isSeparator last = true ∧ (ofWildcard wildcard).directory = stem ++ [last] := by
  cases back : wildcard.reverse.dropWhile (!isSeparator ·) with
  | nil => exact Or.inl (congrArg List.reverse back)
  | cons last stem =>
    have stops := List.head?_dropWhile_not (!isSeparator ·) wildcard.reverse
    refine Or.inr ⟨stem.reverse, last, by simpa [back] using stops, ?_⟩
    exact (congrArg List.reverse back).trans List.reverse_cons

/-- A wildcard is cut where the text behind any of its separators is. -/
theorem ofWildcard_append_cons (cuts : isSeparator separator = true) (front rest : Text) :
    ofWildcard (front ++ separator :: rest) =
      ⟨front ++ separator :: (ofWildcard rest).directory, (ofWildcard rest).pattern⟩ := by
  have whole : front ++ separator :: rest =
      (front ++ separator :: (ofWildcard rest).directory) ++ (ofWildcard rest).pattern := by
    rw [List.append_assoc, List.cons_append, directory_append_pattern]
  rw [whole]
  refine ofWildcard_append (fun _ inside => isSeparator_of_mem_pattern inside) (Or.inr ?_)
  rcases directory_ends rest with none | ⟨stem, last, lastCuts, same⟩
  · exact ⟨front, separator, cuts, by rw [none]⟩
  · exact ⟨front ++ separator :: stem, last, lastCuts, by rw [same]; simp⟩

/-- The names between the separators of a text. -/
def namesIn (text : Text) : List Name := (Text.splitWhere isSeparator text).filter (· != [])

theorem directoryNames_append_cons (cuts : isSeparator separator = true) (front rest : Text) :
    (ofWildcard (front ++ separator :: rest)).directoryNames =
      namesIn front ++ (ofWildcard rest).directoryNames := by
  rw [ofWildcard_append_cons cuts]
  unfold directoryNames namesIn
  rw [Text.splitWhere_append_cons cuts, List.filter_append]

/-- A separator at the very front changes neither the names nor the pattern. -/
theorem ofWildcard_cons (cuts : isSeparator separator = true) (rest : Text) :
    (ofWildcard (separator :: rest)).directoryNames = (ofWildcard rest).directoryNames ∧
      (ofWildcard (separator :: rest)).pattern = (ofWildcard rest).pattern := by
  have pattern := congrArg Selection.pattern (ofWildcard_append_cons cuts [] rest)
  exact ⟨directoryNames_append_cons cuts [] rest, pattern⟩

/-- The text between two separators is a name, unless nothing stands there. -/
theorem namesIn_of_free {text : Text} (free : ∀ character ∈ text, isSeparator character = false) :
    namesIn text = if text = [] then [] else [text] := by
  unfold namesIn
  rw [Text.splitWhere_of_free free]
  by_cases nothing : text = [] <;> simp [nothing]

/-! ### Changing the separators -/

/-- A change to the separators of a wildcard. -/
inductive Respelling : Text → Text → Prop where
  /-- A separator gives way to another. -/
  | exchanged {separator another : Char} (cuts : isSeparator separator = true)
      (cutsToo : isSeparator another = true) (front rest : Text) :
      Respelling (front ++ separator :: rest) (front ++ another :: rest)
  /-- A run of separators grows. -/
  | lengthened {separator another : Char} (cuts : isSeparator separator = true)
      (cutsToo : isSeparator another = true) (front rest : Text) :
      Respelling (front ++ separator :: rest) (front ++ separator :: another :: rest)
  /-- A separator is put at the very front. -/
  | led {separator : Char} (cuts : isSeparator separator = true) (rest : Text) :
      Respelling rest (separator :: rest)

/-- Changes to the separators, made or taken back, lead from one wildcard to the other. -/
def Respelled : Text → Text → Prop := EqvGen Respelling

/-- A change to the separators leaves the names and the pattern. -/
theorem Respelling.same (respelling : Respelling wildcard other) :
    (ofWildcard wildcard).directoryNames = (ofWildcard other).directoryNames ∧
      (ofWildcard wildcard).pattern = (ofWildcard other).pattern := by
  cases respelling with
  | exchanged cuts cutsToo front rest =>
    rw [directoryNames_append_cons cuts, directoryNames_append_cons cutsToo,
      ofWildcard_append_cons cuts, ofWildcard_append_cons cutsToo]
    exact ⟨rfl, rfl⟩
  | lengthened cuts cutsToo front rest =>
    obtain ⟨names, pattern⟩ := ofWildcard_cons cutsToo rest
    rw [directoryNames_append_cons cuts, directoryNames_append_cons cuts, names,
      ofWildcard_append_cons cuts, ofWildcard_append_cons cuts]
    exact ⟨rfl, pattern.symm⟩
  | led cuts =>
    obtain ⟨names, pattern⟩ := ofWildcard_cons cuts wildcard
    exact ⟨names.symm, pattern.symm⟩

theorem Respelled.same (respelled : Respelled wildcard other) :
    (ofWildcard wildcard).directoryNames = (ofWildcard other).directoryNames ∧
      (ofWildcard wildcard).pattern = (ofWildcard other).pattern := by
  induction respelled with
  | rel _ _ respelling => exact respelling.same
  | refl _ => exact ⟨rfl, rfl⟩
  | symm _ _ _ same => exact ⟨same.1.symm, same.2.symm⟩
  | trans _ _ _ _ _ one two => exact ⟨one.1.trans two.1, one.2.trans two.2⟩

/-! ### The plain spelling -/

/-- The spelling with one slash behind each name. -/
def spelled (names : List Name) (pattern : Text) : Text :=
  (names.flatMap fun name => name ++ [Path.separator]) ++ pattern

/-- The wildcard with one slash behind each name. -/
def plainly (wildcard : Text) : Text :=
  spelled (ofWildcard wildcard).directoryNames (ofWildcard wildcard).pattern

/-- Behind a separator texts that are spelled alike make wildcards that are. -/
theorem Respelled.behind (respelled : Respelled wildcard other)
    (cuts : isSeparator separator = true) (front : Text) :
    Respelled (front ++ separator :: wildcard) (front ++ separator :: other) := by
  induction respelled with
  | rel _ _ respelling =>
    refine EqvGen.rel _ _ ?_
    cases respelling with
    | exchanged one two stem rest =>
      have step := Respelling.exchanged one two (front ++ separator :: stem) rest
      rwa [List.append_assoc, List.append_assoc] at step
    | lengthened one two stem rest =>
      have step := Respelling.lengthened one two (front ++ separator :: stem) rest
      rwa [List.append_assoc, List.append_assoc] at step
    | led one => exact .lengthened cuts one front _
  | refl _ => exact EqvGen.refl _
  | symm _ _ _ back => exact EqvGen.symm _ _ back
  | trans _ _ _ _ _ one two => exact EqvGen.trans _ _ _ one two

/-- Every wildcard is spelled like the plain one. -/
theorem respelled_plainly_append {front : Text}
    (free : ∀ character ∈ front, isSeparator character = false) (wildcard : Text) :
    Respelled (front ++ wildcard) (plainly (front ++ wildcard)) := by
  -- `front` is what the scan has read since the last separator.
  induction wildcard generalizing front with
  | nil =>
    have whole : ofWildcard ([] ++ front) = ⟨[], front⟩ := ofWildcard_append free (Or.inl rfl)
    rw [List.append_nil]
    unfold plainly
    rw [← List.nil_append front, whole]
    exact EqvGen.refl _
  | cons head rest inductionHypothesis =>
    by_cases cuts : isSeparator head = true
    · have behind : Respelled (front ++ head :: rest) (front ++ head :: plainly rest) :=
        (@inductionHypothesis [] nofun).behind cuts front
      have exchanged : Respelled (front ++ head :: plainly rest)
          (front ++ Path.separator :: plainly rest) :=
        EqvGen.rel _ _ (.exchanged cuts rfl front _)
      refine EqvGen.trans _ _ _ behind (EqvGen.trans _ _ _ exchanged ?_)
      unfold plainly
      rw [directoryNames_append_cons cuts, ofWildcard_append_cons cuts, namesIn_of_free free]
      by_cases nothing : front = []
      · rw [if_pos nothing, nothing]
        exact EqvGen.symm _ _ (EqvGen.rel _ _ (.led rfl _))
      · rw [if_neg nothing]
        unfold spelled
        simp only [List.singleton_append, List.flatMap_cons, List.append_assoc]
        exact EqvGen.refl _
    · have longer : ∀ character ∈ front ++ [head], isSeparator character = false := by
        intro character inside
        rcases List.mem_append.mp inside with early | last
        · exact free character early
        · rw [List.mem_singleton.mp last]
          simpa using cuts
      have read := inductionHypothesis longer
      rwa [List.append_assoc, List.singleton_append] at read

/-- Two wildcards are spelled alike exactly when they have the same names and the same pattern. -/
theorem respelled_iff : Respelled wildcard other ↔
    (ofWildcard wildcard).directoryNames = (ofWildcard other).directoryNames ∧
      (ofWildcard wildcard).pattern = (ofWildcard other).pattern := by
  refine ⟨Respelled.same, fun ⟨names, pattern⟩ => ?_⟩
  have plain : plainly wildcard = plainly other := by
    unfold plainly
    rw [names, pattern]
  have one : Respelled wildcard (plainly wildcard) := @respelled_plainly_append [] nofun wildcard
  have two : Respelled other (plainly other) := @respelled_plainly_append [] nofun other
  exact EqvGen.trans _ _ _ one (plain ▸ EqvGen.symm _ _ two)

instance (wildcard other : Text) : Decidable (Respelled wildcard other) :=
  decidable_of_iff _ respelled_iff.symm

/-! ### What wildcards stand for -/

/-- The files of a wildcard depend on its names and its pattern alone. -/
theorem members_congr
    (names : (ofWildcard wildcard).directoryNames = (ofWildcard other).directoryNames)
    (pattern : (ofWildcard wildcard).pattern = (ofWildcard other).pattern) (tree : FileTree)
    (root : Path) : members tree root wildcard = members tree root other := by
  have base : (ofWildcard wildcard).base root = (ofWildcard other).base root := by
    unfold Selection.base
    rw [names]
  have selects : (ofWildcard wildcard).selects = (ofWildcard other).selects := by
    funext path
    unfold Selection.selects
    rw [pattern]
  unfold members
  dsimp only
  rw [base, selects]

/-- A directory with a file in it, below the root. -/
def oneSound : FileTree where
  nodes := [([['s']], .directory), ([['s'], ['u']], .directory),
    ([['s'], ['u'], ['a']], .file ⟨[], ⟨1000, 0⟩, .ordinary⟩)]
  workingDirectory := []
  clock := ⟨2000, 0⟩

/-- Wildcards that are spelled alike have the same pattern, in which no separator stands; the
directory part in front of it makes up the rest of each. Below every root of every tree they stand
for the same files, or fail with the same error. -/
theorem respelled_stands_for_same (respelled : Respelled wildcard other) :
    (ofWildcard wildcard).pattern = (ofWildcard other).pattern ∧
      (∀ character ∈ (ofWildcard wildcard).pattern, isSeparator character = false) ∧
      (ofWildcard wildcard).directory ++ (ofWildcard wildcard).pattern = wildcard ∧
      (ofWildcard other).directory ++ (ofWildcard other).pattern = other ∧
      ∀ tree root, members tree root wildcard = members tree root other := by
  obtain ⟨names, pattern⟩ := respelled.same
  exact ⟨pattern, fun _ inside => isSeparator_of_mem_pattern inside,
    directory_append_pattern wildcard, directory_append_pattern other, members_congr names pattern⟩

theorem respelled_stands_for_same_oneSound :
    let backslashes : Text := ['\\', 'u', '\\', '/', '*']
    let slash : Text := ['u', '/', '*']
    Respelled backslashes slash ∧
      members oneSound ⟨['s']⟩ backslashes = .ok [⟨['u', '/', 'a']⟩] ∧
      members oneSound ⟨['t']⟩ backslashes = .error (.unsearchable ⟨['t']⟩ .notFound) := by
  intro backslashes slash
  have respelled : Respelled backslashes slash := by decide +kernel
  obtain ⟨-, -, -, -, same⟩ := respelled_stands_for_same respelled
  rw [same, same]
  exact ⟨respelled, by decide +kernel, by decide +kernel⟩

end AssetPipeline.Selection
