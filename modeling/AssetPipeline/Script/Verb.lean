/-
This file lists the verbs of build scripts: the keywords they are written with, the number of
parameters they take, and the extension of what they produce.
-/

import AssetPipeline.Text.Basic

namespace AssetPipeline

/-- What a command does with each of its files. -/
inductive Verb where
  /-- Copy the file unchanged. -/
  | copy
  /-- Encode a wave file to Ogg Vorbis. -/
  | waveToOgg
  /-- Encode a wave file to Ogg Vorbis, mixed down to one channel. -/
  | waveToOggMono
  /-- Decode an mp3 file and encode the wave to Ogg Vorbis. -/
  | mp3ToOgg
  deriving DecidableEq

namespace Verb

/-- Every keyword with its verb. The shorter spellings of the wave verbs are older. -/
def keywords : List (Text × Verb) :=
  [("copy".toList, .copy),
    ("wave-to-ogg".toList, .waveToOgg),
    ("wav-to-ogg".toList, .waveToOgg),
    ("wave-to-ogg-mono".toList, .waveToOggMono),
    ("wav-to-ogg-mono".toList, .waveToOggMono),
    ("mp3-to-ogg".toList, .mp3ToOgg)]

def ofKeyword? (keyword : Text) : Option Verb := keywords.lookup keyword

/-- The number of parameters a verb takes: the wildcard and the label. -/
def arity (_ : Verb) : Nat := 2

/-- The extension of Ogg Vorbis files. -/
def oggExtension : Text := ['o', 'g', 'g']

/-- The extension of what a verb produces, when that is not the extension of its source. -/
def newExtension? : Verb → Option Text
  | .copy => none
  | .waveToOgg | .waveToOggMono | .mp3ToOgg => some oggExtension

/-- The words that introduce a command of this verb in the log. -/
def title : Verb → String
  | .copy => "Copy"
  | .waveToOgg => "Convert Wave to Ogg Vorbis"
  | .waveToOggMono => "Convert Wave to Ogg Vorbis, downmix to mono"
  | .mp3ToOgg => "Convert mp3 to Ogg Vorbis"

end Verb

end AssetPipeline
