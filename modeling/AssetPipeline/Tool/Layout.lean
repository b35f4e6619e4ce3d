/-
This file holds the names and options of the external tools, and the layout of a build: where the
script, the sources, the outputs and the tools are.
-/

import AssetPipeline.Path.Basic

namespace AssetPipeline

/-- The external tools: what they are called, and the quality asked of the encoder. -/
structure Tooling where
  /-- Encodes wave files to Ogg Vorbis. -/
  oggEncoder : Text := "oggenc2".toList
  /-- Decodes mp3 files to wave files. -/
  mp3Decoder : Text := "madplay".toList
  quality : UInt8 := 4
  deriving DecidableEq

/-- The settings that hold when nothing else is said. -/
def Tooling.standard : Tooling := {}

/-- What a build run is told. -/
structure Layout where
  script : Path
  /-- Wildcards are resolved against this directory. -/
  sourceRoot : Path
  /-- Outputs are written below this directory. -/
  outputRoot : Path
  /-- Tools are looked for in this directory first. -/
  toolsRoot : Path
  /-- Then in these. -/
  searchPath : List Path
  tools : Tooling
  deriving DecidableEq

end AssetPipeline
