/-
This file reads tool settings from a TOML text. The text may set any of three keys and no others;
what it does not set keeps its standard value. The keys are looked at in alphabetical order, and
the first that is unknown or has an unfit value is the error.
-/

import AssetPipeline.Build.Failure
import AssetPipeline.FileTree.Files
import AssetPipeline.Text.Quoted
import AssetPipeline.Toml.Document
import AssetPipeline.Tool.Layout

namespace AssetPipeline

/-- What is wrong with a settings text. -/
inductive SettingsError where
  /-- It is not a well formed document. -/
  | malformed
  /-- There is no such setting. -/
  | unknownField (key : Text)
  /-- A value of another type than the setting has. -/
  | wrongType (found expected : String)
  /-- A number the setting cannot have. -/
  | outOfRange (number : Int) (expected : String)
  /-- A number too large to be represented at all, or a whole number without a value. -/
  | overflow (kind : String)
  deriving DecidableEq

namespace SettingsError

def message : SettingsError → String
  | .malformed => "malformed document"
  | .unknownField key =>
    s!"unknown field `{String.ofList key}`, expected one of `ogg_encoder`, `mp3_decoder`, `quality`"
  | .wrongType found expected => s!"invalid type: {found}, expected {expected}"
  | .outOfRange number expected => s!"invalid value: integer `{number}`, expected {expected}"
  | .overflow kind => s!"{kind} number overflowed"

end SettingsError

namespace Tooling

/-- The kinds of whole numbers a settings file may hold, by size. -/
def wordBound : Int := Int.ofNat (Nat.pow 2 64)

/-- The least whole number of eight bytes. -/
def leastWord : Int := -Int.ofNat (Nat.pow 2 63)

/-- Whole numbers of sixteen bytes stay below this, with a sign. -/
def longSignedBound : Int := Int.ofNat (Nat.pow 2 127)

/-- Whole numbers of sixteen bytes stay below this, without one. -/
def longBound : Int := Int.ofNat (Nat.pow 2 128)

/-- What a value is called when another kind was expected. -/
def describe (value : Toml.Value) : Except SettingsError String :=
  match value with
  | .string text => .ok s!"string {String.ofList text.quoted}"
  | .integer none => .error (.overflow "integer")
  | .integer (some number) =>
    if leastWord ≤ number ∧ number < wordBound then .ok s!"integer `{number}`"
    else if -longSignedBound ≤ number ∧ number < longSignedBound then
      .ok s!"integer `{number}` as i128"
    else if 0 ≤ number ∧ number < longBound then .ok s!"integer `{number}` as u128"
    else .error (.overflow "integer")
  | .real literal =>
    match literal.render? with
    | some written => .ok s!"floating point `{written}`"
    | none => .error (.overflow "floating-point")
  | .boolean value => .ok s!"boolean `{value}`"
  | .moment | .table .. => .ok "map"
  | .array _ | .tables _ => .ok "sequence"

/-- The error of a value where `expected` stands. -/
def mismatch (value : Toml.Value) (expected : String) : SettingsError :=
  match describe value with
  | .ok found => .wrongType found expected
  | .error error => error

def textOf (value : Toml.Value) : Except SettingsError Text :=
  match value with
  | .string text => .ok text
  | other => .error (mismatch other "a string")

/-- A value that has to be a number of one byte. -/
def byteOf (value : Toml.Value) : Except SettingsError UInt8 :=
  match value with
  | .integer (some number) =>
    if 0 ≤ number ∧ number < 256 then .ok number.toNat.toUInt8
    else if leastWord ≤ number ∧ number < wordBound then .error (.outOfRange number "u8")
    else .error (mismatch value "u8")
  | other => .error (mismatch other "u8")

def set (settings : Tooling) (key : Text) (value : Toml.Value) :
    Except SettingsError Tooling :=
  if key = "ogg_encoder".toList then
    (textOf value).map fun text => { settings with oggEncoder := text }
  else if key = "mp3_decoder".toList then
    (textOf value).map fun text => { settings with mp3Decoder := text }
  else if key = "quality".toList then
    (byteOf value).map fun byte => { settings with quality := byte }
  else .error (.unknownField key)

/-- The settings with these set, one after the other, up to the first error. -/
def setAll : Toml.Entries → Tooling → Except SettingsError Tooling
  | [], settings => .ok settings
  | (key, value) :: rest, settings =>
    match settings.set key value with
    | .error error => .error error
    | .ok changed => setAll rest changed

/-- Does the key of the first entry come no later in the alphabet than that of the second? -/
def keyNotAfter (first second : Text × Toml.Value) : Bool :=
  (List.compareLex compare (first.1.map Char.toNat) (second.1.map Char.toNat)).isLE

def ofText (text : Text) : Except SettingsError Tooling :=
  match Toml.document? text with
  | none => .error .malformed
  | some entries => setAll (entries.mergeSort keyNotAfter) .standard

/-- The settings that a file makes. -/
def ofFile (tree : FileTree) (path : Path) : Except StartFailure Tooling :=
  match tree.readText path with
  | .error fault => .error (.badSettings path fault.message)
  | .ok text =>
    match ofText text with
    | .error error => .error (.badSettings path s!"TOML parse error: {error.message}")
    | .ok settings => .ok settings

end Tooling

end AssetPipeline
