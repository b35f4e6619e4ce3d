/-
This file describes launches of the external tools: the command lines of encoder and decoder, and
what the exit code of the encoder means.
-/

import AssetPipeline.Path.Extension
import AssetPipeline.Tool.Locate

namespace AssetPipeline

/-- One launch of an external tool. -/
structure Job where
  executable : Path
  arguments : List Text
  source : Path
  target : Path
  deriving DecidableEq

namespace Job

/-- The command line, for the log. -/
def written (job : Job) : String :=
  job.arguments.foldl (fun line argument => s!"{line} {String.ofList argument}")
    (toString job.executable)

/-- What the tool is called in error messages: its file name without the extension. -/
def tool (job : Job) : Text := job.executable.stem?.getD job.executable.text

end Job

/-- How a process ended: with an exit code, or killed. -/
abbrev ExitCode := Option Int

/-- What the end of an encoder means. -/
inductive EncoderExit where
  | success
  /-- The input is mono already, so there is nothing to mix down. -/
  | alreadyMono
  | failed (code : ExitCode)
  deriving DecidableEq

namespace EncoderExit

/-- The exit code by which the encoder says that its input is mono already. -/
def alreadyMonoCode : Int := 1

/-- What an exit code means, given whether the encoder was asked to mix down. -/
def ofCode (code : ExitCode) (downmix : Bool) : EncoderExit :=
  if code = some 0 then .success
  else if code = some alreadyMonoCode ∧ downmix = true then .alreadyMono
  else .failed code

end EncoderExit

/-- The tools of a build, found. -/
structure Toolbox where
  oggEncoder : Path
  mp3Decoder : Path
  quality : UInt8
  deriving DecidableEq

namespace Toolbox

/-- The tools that a layout names, looked up in a tree. -/
def find (layout : Layout) (tree : FileTree) : Toolbox where
  oggEncoder := layout.placeOf tree layout.tools.oggEncoder
  mp3Decoder := layout.placeOf tree layout.tools.mp3Decoder
  quality := layout.tools.quality

/-- The launch that encodes a wave file. -/
def encodeJob (toolbox : Toolbox) (source target : Path) (downmix : Bool) : Job where
  executable := toolbox.oggEncoder
  arguments :=
    (if downmix then ["--downmix".toList] else []) ++
      ["--quality".toList, (toString toolbox.quality.toNat).toList,
        "--output=".toList ++ target.text, source.text]
  source := source
  target := target

/-- The launch that decodes an mp3 file. -/
def decodeJob (toolbox : Toolbox) (source target : Path) : Job where
  executable := toolbox.mp3Decoder
  arguments := ["--output=wave:".toList ++ target.text, source.text]
  source := source
  target := target

end Toolbox

end AssetPipeline
