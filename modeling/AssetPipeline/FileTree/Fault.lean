/-
This file lists the ways an operation on files can fail and the words each failure is reported
in. Failures that the operating system numbers carry their number.
-/

namespace AssetPipeline

/-- Why an operation on the file tree, or the launch of a tool, failed. -/
inductive Fault where
  /-- Nothing is there. -/
  | notFound
  /-- A program file that the system cannot execute. -/
  | notAProgram
  /-- The owner's mode bits do not allow it. -/
  | permissionDenied
  /-- Something is there already. -/
  | alreadyExists
  /-- A component that has to be a directory is something else. -/
  | notADirectory
  /-- A directory where a file is wanted. -/
  | isADirectory
  /-- A component, or the whole path, is too long. -/
  | nameTooLong
  /-- Too many links had to be followed. -/
  | tooManyLinks
  /-- A path holds the character NUL. -/
  | nulInPath
  /-- A path whose times are to be set holds the character NUL. -/
  | nulInTimedPath
  /-- A command line holds the character NUL. -/
  | nulInCommand
  /-- A text file is not UTF-8. -/
  | notText
  /-- The source of a copy is not a regular file. -/
  | notARegularFile
  /-- A path without a parent could not be made. -/
  | rootNotMade
  /-- A failure described by its words alone. -/
  | described (words : String)
  deriving DecidableEq

namespace Fault

/-- The words of a failure, with the system's number where there is one. -/
def message : Fault → String
  | .notFound => "No such file or directory (os error 2)"
  | .notAProgram => "Exec format error (os error 8)"
  | .permissionDenied => "Permission denied (os error 13)"
  | .alreadyExists => "File exists (os error 17)"
  | .notADirectory => "Not a directory (os error 20)"
  | .isADirectory => "Is a directory (os error 21)"
  | .nameTooLong => "File name too long (os error 36)"
  | .tooManyLinks => "Too many levels of symbolic links (os error 40)"
  | .nulInPath => "file name contained an unexpected NUL byte"
  | .nulInTimedPath => "data provided contains a nul byte"
  | .nulInCommand => "nul byte found in provided data"
  | .notText => "stream did not contain valid UTF-8"
  | .notARegularFile =>
    "the source path is neither a regular file nor a symlink to a regular file"
  | .rootNotMade => "failed to create whole tree"
  | .described words => words

instance : ToString Fault := ⟨message⟩

end Fault

end AssetPipeline
