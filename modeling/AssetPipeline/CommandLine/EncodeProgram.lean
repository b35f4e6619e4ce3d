/-
This file holds the program that encodes: it encodes the files that patterns stand for, with the
key that game clients know, or prints a new key.
-/

import AssetPipeline.CommandLine.Ending
import AssetPipeline.Encoding.Batch

namespace AssetPipeline.CommandLine

/-- What the program is asked for. -/
inductive EncodeTask where
  | encode (patterns : List Path)
  | generate
  deriving DecidableEq

namespace EncodeTask

/-- What the command to encode takes. -/
def encodeForm : Form := ⟨[], none⟩

/-- What the command to print a key takes. -/
def generateForm : Form := ⟨[], some 0⟩

def encodeCommand : Text := "encode".toList

/-- The command to print a key. -/
def generateCommand : Text := "generate".toList

/-- The encoding that arguments ask for. There has to be a pattern. -/
def readEncode (texts : List Text) : Except Halt EncodeTask :=
  match Arguments.read encodeForm texts {} with
  | .error halt => .error halt
  | .ok arguments =>
    if arguments.positional = [] then .error .misuse
    else .ok (.encode (arguments.positional.map Path.mk))

/-- What arguments ask for. -/
def read (texts : List Text) : Except Halt EncodeTask :=
  match chooseCommand [encodeCommand, generateCommand] texts with
  | .error halt => .error halt
  | .ok (command, rest) =>
    if command = encodeCommand then readEncode rest
    else (Arguments.read generateForm rest {}).map fun _ => .generate

end EncodeTask

namespace EncodeProgram

/-- The part of the program that its diagnostic lines name. -/
def origin : String := "encode_file"

/-- What the program prints first. -/
def banner : String := "Game data encode tool\n\n"

/-- How the program is used. -/
def usage : String :=
  "Game data encode tool\n\n" ++
  "Usage: encode-file encode <PATTERNS>...\n" ++
  "       encode-file generate\n\n" ++
  "Options:\n" ++
  "  -h, --help     Print help\n" ++
  "  -V, --version  Print version\n"

/-- The name and version of the program. -/
def version : String := "encode-file 0.1.0\n"

def encode (patterns : List Path) (tree : FileTree) : Ending :=
  let outcome := Encoding.encodeBatch .standard patterns tree
  let output := banner ++ String.join (outcome.announced.map Encoding.announcement)
  match outcome.result with
  | .error error => .fatal output error.causes outcome.tree
  | .ok written =>
    let counted : Diagnostic := ⟨.info, origin, s!"Encoded {written.length} file(s)"⟩
    .success (output ++ counted.line) outcome.tree

def generate (key : Key) (tree : FileTree) : Ending :=
  .success (banner ++ String.ofList (Key.render key.bytes) ++ "\n") tree

/-- Do what arguments ask for. A key that has to be printed is `fresh`. -/
def run (fresh : Key) (arguments : List Text) (tree : FileTree) : Ending :=
  match EncodeTask.read arguments with
  | .error halt => .halted usage version tree halt
  | .ok (.encode patterns) => encode patterns tree
  | .ok .generate => generate fresh tree

end EncodeProgram

end AssetPipeline.CommandLine
