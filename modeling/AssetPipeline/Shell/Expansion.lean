/-
This file replaces the pieces of words by their values. The output of scripts is taken in by
`capture`, which is told the script and the line it begins on.
-/

import AssetPipeline.Shell.Glob
import AssetPipeline.Shell.Sum

namespace AssetPipeline.Shell

/-- How the output of a script is taken in. -/
abbrev Capture := Text → Nat → Act Text

/-- What is done with the pieces of a word. -/
structure Manner where
  /-- Whether values are cut into fields. -/
  splits : Bool
  /-- Whether characters are too, as in the operand of a parameter. -/
  splitsCharacters : Bool := false
  /-- Whether a tilde behind a colon stands for a directory too. -/
  assigns : Bool := false

/-- Where in a word a piece stands. -/
structure Standing where
  /-- Whether a tilde stands for a directory here. -/
  takesTilde : Bool
  /-- Whether an unquoted character stands in front. -/
  isBehindCharacter : Bool := false
  /-- The pieces that have been taken already. -/
  taken : Nat := 0

namespace Process

/-- The unquoted characters that name whose directory a tilde means. -/
def tildeName? (assigns : Bool) : Word → Option Text
  | [] => some []
  | .character head false :: rest =>
    if head = '/' ∨ (assigns ∧ head = ':') then some []
    else (tildeName? assigns rest).map (head :: ·)
  | _ => none

/-- The directory that a tilde in front of a word means, and the length of the name of its user. -/
def tilde? (process : Process) (assigns : Bool) (rest : Word) : Option (Text × Nat) :=
  match tildeName? assigns rest with
  | some [] => (process.value? homeDirectory).map ((·, 0))
  | some name => if name = ascii "root" then some (ascii "/root", name.length) else none
  | none => none

def joinedArguments (process : Process) (quoted splits : Bool) (name : Text) : Text :=
  let joint := if splits && (!quoted || name == ['@']) then [' '] else process.joint
  joint.intercalate process.arguments

/-- Does a parameter mean all arguments? -/
def meansAll (name : Text) : Bool := name == ['@'] || name == ['*']

/-- The value of a parameter, if it is set. -/
def textOfParameter? (process : Process) (quoted splits : Bool) (name : Text) : Option Text :=
  if meansAll name then some (process.joinedArguments quoted splits name)
  else process.parameter? name

def fragmentsOfParameter (process : Process) (quoted splits : Bool) (name value : Text) :
    List Fragment :=
  if splits && meansAll name && (!quoted || name == ['@']) then
    Fragment.ofArguments quoted process.arguments
  else Fragment.ofValue quoted splits value

/-- Complain that a parameter is missing. -/
def demand {Result : Type} (name : Text) (orEmpty : Bool) (words : Text) : Act Result :=
  let reason :=
    if ¬ words.isEmpty then written words
    else if orEmpty then "parameter not set or null"
    else "parameter not set"
  fail s!"{written name}: {reason}"

/-- The value of a parameter, which may be missing unless the script wants all to be set. -/
def demandedText (quoted splits : Bool) (name : Text) : Act Text := do
  let process ← get
  match process.textOfParameter? quoted splits name with
  | some value => return value
  | none => if process.hasOption 'u' then demand name false [] else return []

def withoutLastLineEnds (text : Text) : Text :=
  (text.reverse.dropWhile (· == '\n')).reverse

mutual

def fragmentsOfPiece (capture : Capture) (manner : Manner) : Piece → Act (List Fragment)
  | .character character quoted =>
    pure [.character character quoted (manner.splitsCharacters && !quoted)]
  | .quotes => pure [.quotes]
  | .substitution script line quoted => do
    let output ← capture script line
    let kept := (withoutLastLineEnds output).filter (· != '\x00')
    return Fragment.ofValue quoted manner.splits kept
  | .sum expression quoted => do
    let source ← fragmentsFrom capture { splits := false } { takesTilde := false } expression
    let value ← sum (Fragment.text source)
    return Fragment.ofValue quoted manner.splits value
  | .parameter name change operand quoted => do
    let splits := manner.splits
    let value? := (← get).textOfParameter? quoted splits name
    let value := value?.getD []
    let isMissing (orEmpty : Bool) : Bool := value?.isNone || (orEmpty && value.isEmpty)
    let whole : Act (List Fragment) := do
      return (← get).fragmentsOfParameter quoted splits name value
    let operandManner : Manner := { splits, splitsCharacters := splits && !quoted }
    match change with
    | .keep =>
      if meansAll name then whole
      else return Fragment.ofValue quoted splits (← demandedText quoted splits name)
    | .measure =>
      let text ← demandedText quoted splits name
      return Fragment.ofValue quoted splits (digits text.length)
    | .ifUnset orEmpty =>
      if isMissing orEmpty then
        fragmentsFrom capture operandManner { takesTilde := true } operand
      else whole
    | .ifSet notEmpty =>
      if isMissing notEmpty then return Fragment.ofValue quoted splits []
      else fragmentsFrom capture operandManner { takesTilde := true } operand
    | .settle orEmpty =>
      if isMissing orEmpty then
        let words ← fragmentsFrom capture { splits := false } { takesTilde := true } operand
        assign name (Fragment.text words)
        return Fragment.ofValue quoted splits ((← get).valueOf name)
      else whole
    | .demand orEmpty =>
      if isMissing orEmpty then
        let words ← fragmentsFrom capture { splits := false } { takesTilde := true } operand
        demand name orEmpty (Fragment.text words)
      else whole
    | .trimFront longest =>
      let text ← demandedText quoted splits name
      let words ← fragmentsFrom capture { splits := false } { takesTilde := true } operand
      let trimmed := (Fragment.pattern words).trimFront longest text
      return Fragment.ofValue quoted splits trimmed
    | .trimBack longest =>
      let text ← demandedText quoted splits name
      let words ← fragmentsFrom capture { splits := false } { takesTilde := true } operand
      let trimmed := (Fragment.pattern words).trimBack longest text
      return Fragment.ofValue quoted splits trimmed
    | .unknown => fail "Bad substitution"

def fragmentsFrom (capture : Capture) (manner : Manner) (standing : Standing) :
    Word → Act (List Fragment)
  | [] => pure []
  | piece :: rest => do
    match standing.taken with
    | taken + 1 => fragmentsFrom capture manner { standing with takesTilde := false, taken } rest
    | 0 =>
      match piece with
      | .character head false =>
        let tilde? := (← get).tilde? manner.assigns rest
        match tilde?, standing.takesTilde && head == '~' with
        | some (directory, taken), true =>
          let others ← fragmentsFrom capture manner { takesTilde := false, taken } rest
          return Fragment.ofQuoted directory ++ others
        | _, _ =>
          let next : Standing :=
            { takesTilde := manner.assigns && head == ':', isBehindCharacter := true }
          let own := Fragment.character head false manner.splitsCharacters
          let others ← fragmentsFrom capture manner next rest
          if manner.splitsCharacters && !standing.isBehindCharacter then
            return .edge false :: own :: others
          else return own :: others
      | _ =>
        let own ← fragmentsOfPiece capture manner piece
        return own ++ (← fragmentsFrom capture manner { takesTilde := false } rest)

end

/-- The text of a word that is not cut into fields. -/
def expand (capture : Capture) (word : Word) : Act Text := do
  return Fragment.text (← fragmentsFrom capture { splits := false } { takesTilde := true } word)

def expandAssigned (capture : Capture) (word : Word) : Act Text := do
  let manner : Manner := { splits := false, assigns := true }
  return Fragment.text (← fragmentsFrom capture manner { takesTilde := true } word)

/-- The text of a word in which no tilde stands for a directory. -/
def expandDocument (capture : Capture) (word : Word) : Act Text := do
  return Fragment.text (← fragmentsFrom capture { splits := false } { takesTilde := false } word)

def expandPattern (capture : Capture) (word : Word) : Act Pattern := do
  return Fragment.pattern (← fragmentsFrom capture { splits := false } { takesTilde := true } word)

/-- The fields of a word, with the paths that they match. -/
def expandFields (capture : Capture) (word : Word) : Act (List Text) := do
  let fragments ← fragmentsFrom capture { splits := true } { takesTilde := true } word
  let process ← get
  let characters := (process.value? separators).getD Fragment.blanks
  let fields := Fragment.fields characters fragments
  if process.hasOption 'f' then return fields.map Fragment.text
  else return fields.flatMap (·.texts process.system.tree)

end Process

end AssetPipeline.Shell
