/-
This file makes descriptors mean other streams for the time of a command. A file is opened before
the command runs, so it is emptied even by a command that prints nothing. Some paths are names of
descriptors, or of nothing at all.
-/

import AssetPipeline.Shell.Expansion

namespace AssetPipeline.Shell

/-- What a file is opened for. -/
inductive Access where
  | read
  | write
  | overwrite
  | append
  | update
  deriving DecidableEq

namespace Access

/-- Is a missing file made? -/
def creates : Access → Bool
  | .read => false
  | _ => true

/-- Is what a file holds thrown away? -/
def empties : Access → Bool
  | .write | .overwrite => true
  | _ => false

/-- Can be read from the file? -/
def reads : Access → Bool
  | .read | .update => true
  | _ => false

/-- Can be written to the file? -/
def writes : Access → Bool
  | .read => false
  | _ => true

end Access

/-- What a descriptor is made to mean. -/
inductive Aimed where
  | file (access : Access) (path : Text)
  /-- What another descriptor means, or nothing. -/
  | same (descriptor? : Option Nat)
  | document (content : Word)

namespace Process

/-- The path that leads nowhere. -/
def nowherePath : Text := ascii "/dev/null"

def descriptorOfPath? (path : Text) : Option Nat :=
  if path = ascii "/dev/stdin" then some inputDescriptor
  else if path = ascii "/dev/stdout" then some outputDescriptor
  else if path = ascii "/dev/stderr" then some errorDescriptor
  else
    match Text.after? (ascii "/dev/fd/") path with
    | some digits => if digits.isEmpty then none else count? digits
    | none => none

/-- What the system says about a fault. -/
def systemWords : Fault → String
  | .permissionDenied => "Permission denied"
  | .alreadyExists => "File exists"
  | .isADirectory => "Is a directory"
  | .nameTooLong => "File name too long"
  | .tooManyLinks => "Too many levels of symbolic links"
  | .notAProgram => "Exec format error"
  | .notFound => "No such file or directory"
  | .notADirectory => "Not a directory"
  | fault => fault.message

/-- Why a file could not be opened. -/
def openingWords (access : Access) (fault : Fault) : String :=
  match fault with
  | .notFound | .notADirectory =>
    if access.creates then "Directory nonexistent" else "No such file"
  | fault => systemWords fault

/-- Complain that a file could not be opened. -/
def failOpening {Result : Type} (access : Access) (path : Text) (fault : Fault) : Act Result :=
  let verb := if access.creates then "create" else "open"
  fail s!"cannot {verb} {written path}: {openingWords access fault}"

/-- May an existing file be opened? -/
def mayOpen (access : Access) (mode : Mode) : Bool :=
  (!access.reads || mode.ownerReads) && (!access.writes || mode.ownerWrites)

/-- The mode of a file that the process makes. -/
def newMode (process : Process) : Mode := ⟨0o666 - (0o666 &&& process.mask)⟩

def openFile (process : Process) (access : Access) (path : Path) :
    Except Fault (FileTree × Location) :=
  let tree := process.system.tree
  if access.empties then
    if access == .write && process.hasOption 'C' && tree.isFile path then .error .alreadyExists
    else tree.create path process.newMode
  else
    match tree.locate path with
    | .error .notFound =>
      if access.creates then tree.create path process.newMode else .error .notFound
    | .error fault => .error fault
    | .ok location =>
      match tree.file? location with
      | some file =>
        if mayOpen access file.mode then .ok (tree, location) else .error .permissionDenied
      | none =>
        if access.writes then .error .isADirectory
        else if tree.isClosedAt location then .error .permissionDenied
        else .ok (tree, location)

def openStream (stream : Stream) : Act Nat := do
  let process ← get
  let (system, number) := process.system.add stream
  set { process with system }
  return number

/-- The stream of a file that is opened, or what a path means otherwise. -/
def openPath (access : Access) (path : Text) : Act Nat := do
  let process ← get
  if path = nowherePath then openStream .nowhere
  else
    match descriptorOfPath? path with
    | some descriptor =>
      match process.stream? descriptor with
      | some stream => return stream
      | none => failOpening access path .notFound
    | none =>
      match process.openFile access (pathOf path) with
      | .error fault => failOpening access path fault
      | .ok (tree, location) =>
        set { process with system := { process.system with tree } }
        openStream (.file location 0 access.reads access.writes (access == .append))

/-- Let a descriptor mean a stream, or nothing. -/
def aim (descriptor : Nat) (stream? : Option Nat) : Act Unit :=
  modify fun process =>
    match stream? with
    | some stream =>
      { process with descriptors := withDescriptor process.descriptors descriptor stream }
    | none => { process with descriptors := process.descriptors.filter (·.1 != descriptor) }

def aimed (capture : Capture) (redirection : Redirection) : Act (Nat × Aimed) := do
  let file (access : Access) (target : Word) : Act (Nat × Aimed) := do
    return (redirection.descriptor, .file access (← expand capture target))
  match redirection.redirect with
  | .read source => file .read source
  | .write target => file .write target
  | .overwrite target => file .overwrite target
  | .append target => file .append target
  | .update target => file .update target
  | .document content => return (redirection.descriptor, .document content)
  | .awaited _ => return (redirection.descriptor, .document [])
  | .duplicate source =>
    match ← expand capture source with
    | ['-'] => return (redirection.descriptor, .same none)
    | [digit] =>
      if digit.isDigit then
        return (redirection.descriptor, .same (some (ofDigits [digit])))
      else fail "Syntax error: Bad fd number"
    | _ => fail "Syntax error: Bad fd number"

/-- Let a descriptor mean what was aimed at. -/
def redirectOne (capture : Capture) (descriptor : Nat) : Aimed → Act Unit
  | .file access path => do aim descriptor (some (← openPath access path))
  | .same none => aim descriptor none
  | .same (some other) => do
    match (← get).stream? other with
    | some stream => aim descriptor (some stream)
    | none => fail s!"{other}: Bad file descriptor"
  | .document content => do
    let text ← expandDocument capture content
    aim descriptor (some (← openStream (.text text)))

/-- Let descriptors mean what was aimed at, one after the other. -/
def redirectAll (capture : Capture) : List (Nat × Aimed) → Act Unit
  | [] => pure ()
  | (descriptor, target) :: others => do
    redirectOne capture descriptor target
    redirectAll capture others

def aimedAll (capture : Capture) : List Redirection → Act (List (Nat × Aimed))
  | [] => pure []
  | redirection :: others => do
    let first ← aimed capture redirection
    return first :: (← aimedAll capture others)

/-- Take redirections; the answer tells whether they could be taken. -/
def redirect (capture : Capture) (redirections : List Redirection) : Act Bool := do
  let targets ← aimedAll capture redirections
  match ← (redirectAll capture targets).outcome with
  | .ok () => return true
  | .error .failed => return false
  | .error stop => throw stop

/-- Run an act, and give the descriptors their former meaning. -/
def keepingDescriptors {Result : Type} (act : Act Result) : Act Result := do
  let before := (← get).descriptors
  act.ensuring (modify fun process => { process with descriptors := before })

end Process

end AssetPipeline.Shell
