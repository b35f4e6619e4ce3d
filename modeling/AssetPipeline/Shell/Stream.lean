/-
This file holds what all processes share: the file tree, what was printed, and the streams that
were opened. A stream keeps its place, so processes that share a stream go on where another one
has stopped.
-/

import AssetPipeline.FileTree.Directories
import AssetPipeline.Text.Octets

namespace AssetPipeline.Shell

/-- What a stream reads from or writes to. -/
inductive Stream where
  /-- What the tool prints. -/
  | printed
  /-- What the tool prints as errors. -/
  | complained
  /-- Nothing: what is written is lost, and there is nothing to read. -/
  | nowhere
  /-- The file at a location, from a position on. Written text goes to the end if it `appends`. -/
  | file (location : Location) (position : Nat) (reads writes appends : Bool)
  /-- What has been written into a pipe, the last octet first. -/
  | pipe (reversed : Text)
  /-- A text of which so much is still to be read. -/
  | text (rest : Text)

/-- What processes share. -/
structure System where
  tree : FileTree
  /-- The streams that were opened, each known by its place in the list. -/
  streams : Array Stream
  /-- The octets that were printed, the last one first. -/
  printed : Text := []
  /-- The octets that were printed as errors, the last one first. -/
  complained : Text := []
  /-- The processes that have been started. -/
  processes : Nat := 1

namespace System

def add (system : System) (stream : Stream) : System × Nat :=
  ({ system with streams := system.streams.push stream }, system.streams.size)

/-- The system with another state of a stream. -/
def setStream (system : System) (number : Nat) (stream : Stream) : System :=
  { system with streams := system.streams.setIfInBounds number stream }

/-- Content with other content from a position on. What lies between the end and the position is
zero. -/
def splice (content : Bytes) (position : Nat) (written : Bytes) : Bytes :=
  let front := content.take position
  let gap := List.replicate (position - content.length) 0
  front ++ gap ++ written ++ content.drop (position + written.length)

def writeFile (system : System) (location : Location) (position : Nat) (text : Text) : System :=
  match system.tree.file? location with
  | none => system
  | some file =>
    let content := splice file.content position text.bytesOfOctets
    let written : File := { file with content, modified := system.tree.clock }
    { system with tree := system.tree.put location (.file written) }

def fileLength (system : System) (location : Location) : Nat :=
  ((system.tree.file? location).map (·.content.length)).getD 0

/-- Write a text of octets to a stream; the answer tells whether that went well. -/
def write (system : System) (number : Nat) (text : Text) : System × Bool :=
  match system.streams[number]? with
  | some .printed => ({ system with printed := text.reverse ++ system.printed }, true)
  | some .complained => ({ system with complained := text.reverse ++ system.complained }, true)
  | some .nowhere => (system, true)
  | some (.pipe reversed) => (system.setStream number (.pipe (text.reverse ++ reversed)), true)
  | some (.file location position reads true appends) =>
    let start := if appends then system.fileLength location else position
    let next := Stream.file location (start + text.length) reads true appends
    ((system.writeFile location start text).setStream number next, true)
  | _ => (system, false)

/-- Take an octet from a stream, if there is one. -/
def takeOctet (system : System) (number : Nat) : System × Option Char :=
  match system.streams[number]? with
  | some (.text (head :: rest)) => (system.setStream number (.text rest), some head)
  | some (.file location position true writes appends) =>
    let octet? := (system.tree.file? location).bind fun file => file.content[position]?
    match octet? with
    | none => (system, none)
    | some octet =>
      let next := Stream.file location (position + 1) true writes appends
      (system.setStream number next, some (Char.ofNat octet.toNat))
  | _ => (system, none)

/-- How much more there may be to read from a stream. -/
def remaining (system : System) (number : Nat) : Nat :=
  match system.streams[number]? with
  | some (.text rest) => rest.length
  | some (.file location position _ _ _) => system.fileLength location - position
  | _ => 0

/-- What was written into a pipe. -/
def piped (system : System) (number : Nat) : Text :=
  match system.streams[number]? with
  | some (.pipe reversed) => reversed.reverse
  | _ => []

end System

end AssetPipeline.Shell
