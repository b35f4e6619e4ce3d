/-
This file cuts the text of a shell script into tokens: words, which may be quoted in part,
redirections, and operators. Reading goes from the front of the text to the rest, and counts
lines. A backslash in front of a line end takes both away, except in single quotes and comments;
in front of anything else it quotes. The texts that `<<` announces follow behind the next line end.

A script in parentheses behind a dollar sign ends where the statements in it do, so reading a word
needs a reader of statements; here it is given as `nested`, which reads up to the closing
parenthesis.
-/

import AssetPipeline.Shell.Statement

namespace AssetPipeline.Shell

/-- A token of a script. -/
inductive Token where
  | word (word : Word)
  | redirection (sign : Text) (descriptor : Nat)
  | operator (symbol : Text)
  | lineEnd
  | scriptEnd

/-- Why a script cannot be read, and the line where that shows. -/
structure SyntaxFault where
  line : Nat
  words : String

/-- A text of the script that an operator announced, and that is still to be read. -/
structure AwaitedDocument where
  /-- The line that ends it. -/
  mark : Text
  /-- Whether tabs at the start of its lines do not count. -/
  stripsTabs : Bool
  /-- Whether nothing in it is replaced. -/
  isLiteral : Bool

/-- The rest of a script, and what is known from the part that has been read. -/
structure Source where
  rest : Text
  line : Nat := 1
  /-- A token that was looked at but not taken. -/
  ahead? : Option Token := none
  /-- Announced texts, in order. -/
  awaited : List AwaitedDocument := []
  /-- Announced texts that have been read, in order. -/
  documents : List Word := []
  /-- Words that stand for other text at the start of a command. -/
  aliases : List (Text × Text) := []
  /-- Aliases that have been replaced, and the length of the rest behind what replaced them. -/
  replaced : List (Text × Nat) := []

/-- Reading, which may fail. -/
abbrev Reading := StateT Source (Except SyntaxFault)

namespace Reading

/-- The script cannot be read. -/
def refuse {Result : Type} (words : String) : Reading Result := do
  throw ⟨(← get).line, words⟩

/-- Go on with another rest. -/
def goOn (rest : Text) (lines : Nat) : Reading Unit :=
  modify fun source => { source with rest, line := source.line + lines }

/-- Pass over line ends that a backslash takes away. -/
def joinLinesWithin : Nat → Reading Unit
  | 0 => pure ()
  | fuel + 1 => do
    match (← get).rest with
    | '\\' :: '\n' :: rest =>
      goOn rest 1
      joinLinesWithin fuel
    | _ => pure ()

/-- The rest of the script, without line ends at its front that a backslash takes away. -/
def front : Reading Text := do
  joinLinesWithin ((← get).rest.length + 1)
  return (← get).rest

/-- Take a character from the front, if it is there. -/
def takeIf (character : Char) : Reading Bool := do
  match ← front with
  | head :: rest =>
    if head = character then
      goOn rest (if head = '\n' then 1 else 0)
      return true
    else return false
  | [] => return false

/-- Take characters from the front as long as they belong. -/
def takeWhileWithin (belongs : Char → Bool) : Nat → Reading Text
  | 0 => pure []
  | fuel + 1 => do
    match ← front with
    | head :: rest =>
      if belongs head then
        goOn rest 0
        return head :: (← takeWhileWithin belongs fuel)
      else return []
    | [] => return []

/-- Take characters from the front as long as they belong. -/
def takeWhile (belongs : Char → Bool) : Reading Text := do
  takeWhileWithin belongs ((← get).rest.length + 1)

end Reading

/-- What a list of pieces stands in. -/
inductive Enclosure where
  | bare
  /-- The word that ends an announced text. -/
  | mark
  | quotes
  /-- Double quotes in the word that ends an announced text. -/
  | markQuotes
  /-- An announced text. -/
  | document
  | braces
  /-- The braces of a parameter inside quotes. They do not close while `inner` quotes are open. -/
  | quotedBraces (inner : Bool)
  /-- A sum, with so many parentheses open in it. -/
  | sum (depth : Nat)
  deriving DecidableEq

namespace Enclosure

/-- Are characters quoted in it? -/
def isQuoted : Enclosure → Bool
  | .bare | .mark | .braces => false
  | .quotes | .markQuotes | .document | .quotedBraces _ | .sum _ => true

/-- Do single and double quotes open quotations in it? -/
def opensQuotes (enclosure : Enclosure) : Bool := !enclosure.isQuoted

/-- Does a word end in it at blanks and operators? -/
def isWord : Enclosure → Bool
  | .bare | .mark => true
  | _ => false

/-- Are dollar signs and backquotes ordinary characters in it? -/
def isMark : Enclosure → Bool
  | .mark | .markQuotes => true
  | _ => false

/-- Does a backslash in it quote this character, so that it disappears? -/
def escapes (enclosure : Enclosure) (character : Char) : Bool :=
  !enclosure.isQuoted || ['\\', '$', '\x60'].contains character ||
    (character == '"' && enclosure != .document) ||
    match enclosure with
    | .quotedBraces _ => character == '}'
    | _ => false

/-- Why it may not be open at the end of the script. -/
def unclosed : Enclosure → String
  | .sum _ => "Missing '))'"
  | .braces => "Missing '\x7d'"
  | _ => "Unterminated quoted string"

end Enclosure

def endsWord (character : Char) : Bool := " \t\n;&|()<>".toList.contains character

def isSignParameter (character : Char) : Bool := "#?$!-*@".toList.contains character

def isSpecialParameter (character : Char) : Bool :=
  isSignParameter character || character.isDigit

namespace Reading

/-! ### Parameters -/

/-- The name of a parameter in braces; none when the braces do not begin with one. The second
part of the answer tells whether the length of the value is wanted. -/
def bracedName : Reading (Option Text × Bool) := do
  match ← front with
  | '#' :: rest =>
    let saved ← get
    goOn rest 0
    match ← front with
    | next :: _ =>
      if startsName next then return (some (← takeWhile continuesName), true)
      else if next.isDigit then
        goOn ((← get).rest.drop 1) 0
        return (some [next], true)
      else if next = '}' then return (some ['#'], false)
      else
        goOn ((← get).rest.drop 1) 0
        match ← front with
        | '}' :: _ =>
          return (if isSpecialParameter next then some [next] else none, true)
        | _ =>
          set { saved with rest := rest }
          return (some ['#'], false)
    | [] => return (some ['#'], false)
  | next :: rest =>
    if startsName next then return (some (← takeWhile continuesName), false)
    else if next.isDigit then return (some (← takeWhile Char.isDigit), false)
    else if isSignParameter next then
      goOn rest 0
      return (some [next], false)
    else if next = '}' then return (none, false)
    else
      goOn rest 0
      return (none, false)
  | [] => return (none, false)

/-- The change that a sign behind the name of a parameter asks for. -/
def signedChange? (colon : Bool) : Char → Option Change
  | '-' => some (.ifUnset colon)
  | '+' => some (.ifSet colon)
  | '?' => some (.demand colon)
  | '=' => some (.settle colon)
  | _ => none

/-- The change that stands behind the name of a parameter in braces; none when the braces close
there. -/
def bracedChange? : Reading (Option Change) := do
  match ← front with
  | '}' :: rest =>
    goOn rest 0
    return none
  | ':' :: rest =>
    goOn rest 0
    match ← front with
    | sign :: behind =>
      goOn behind (if sign = '\n' then 1 else 0)
      return some ((signedChange? true sign).getD .unknown)
    | [] => return some .unknown
  | '#' :: rest =>
    goOn rest 0
    return some (.trimFront (← takeIf '#'))
  | '%' :: rest =>
    goOn rest 0
    return some (.trimBack (← takeIf '%'))
  | sign :: rest =>
    goOn rest (if sign = '\n' then 1 else 0)
    return some ((signedChange? false sign).getD .unknown)
  | [] => return some .unknown

/-- What the operand of a change stands in. A pattern has quotes of its own. -/
def operandEnclosure (enclosure : Enclosure) : Change → Enclosure
  | .trimFront _ | .trimBack _ => .braces
  | _ => if enclosure.isQuoted then .quotedBraces false else .braces

/-! ### Scripts inside words -/

/-- The script between backquotes, up to the closing one. A backslash before a backslash, a
backquote or a dollar sign disappears, and inside quotes also before a double quote. -/
def backquotedWithin (quoted : Bool) : Nat → Reading Text
  | 0 => pure []
  | fuel + 1 => do
    match ← front with
    | '\x60' :: rest =>
      goOn rest 0
      return []
    | '\\' :: head :: rest =>
      goOn rest 0
      let others ← backquotedWithin quoted fuel
      if ['\\', '\x60', '$'].contains head || (quoted && head == '"') then return head :: others
      else return '\\' :: head :: others
    | head :: rest =>
      goOn rest (if head = '\n' then 1 else 0)
      return head :: (← backquotedWithin quoted fuel)
    | [] => refuse "EOF in backquote substitution"

/-- Read with another source, and go on where that ends. The announced texts of the two have
nothing to do with each other. -/
def apart (nested : Reading Unit) : Reading Unit := do
  let outer ← get
  set { outer with ahead? := none, awaited := [], documents := [], aliases := [], replaced := [] }
  nested
  let inner ← get
  set { outer with rest := inner.rest, line := inner.line }

/-- The script in parentheses behind a dollar sign, without the parentheses. -/
def parenthesized (nested : Reading Unit) : Reading Text := do
  let start := (← get).rest
  apart nested
  return start.take (start.length - (← get).rest.length - 1)

/-- The script between backquotes, which has to be readable. It is read as if it stood in
parentheses. -/
def backquoted (nested : Reading Unit) (quoted : Bool) : Reading Text := do
  let script ← backquotedWithin quoted ((← get).rest.length + 1)
  let outer ← get
  set ({ rest := script ++ ['\n', ')'] } : Source)
  nested
  set outer
  return script

/-! ### Pieces of words -/

mutual

/-- The pieces up to the end of an enclosure, which is taken too unless it is that of a word. -/
def piecesWithin (nested : Reading Unit) : Nat → Enclosure → Reading Word
  | 0, _ => refuse "script nested too deeply"
  | fuel + 1, enclosure => do
    let onward (pieces : List Piece) (next : Enclosure) : Reading Word := do
      return pieces ++ (← piecesWithin nested fuel next)
    let quoted := enclosure.isQuoted
    match ← front with
    | [] =>
      if enclosure.isWord || enclosure == .document then return []
      else refuse enclosure.unclosed
    | '\\' :: [] =>
      goOn [] 0
      onward [.character '\\' true] enclosure
    | '\\' :: head :: rest =>
      goOn rest 0
      if enclosure.escapes head then onward [.character head true] enclosure
      else onward [.character '\\' true, .character head true] enclosure
    | head :: rest =>
      if enclosure.isWord && endsWord head then return []
      else
        goOn rest (if head = '\n' then 1 else 0)
        if head = '$' ∧ ¬ enclosure.isMark then
          let pieces ← dollarWithin nested fuel enclosure
          onward pieces enclosure
        else if head = '\x60' ∧ ¬ enclosure.isMark then
          let script ← backquoted nested quoted
          onward [.substitution script 1 quoted] enclosure
        else if head = '\'' ∧ enclosure.opensQuotes then
          let characters := rest.takeWhile (· != '\'')
          match rest.dropWhile (· != '\'') with
          | _ :: behind =>
            goOn behind (characters.count '\n')
            onward (.quotes :: characters.map (.character · true)) enclosure
          | [] =>
            goOn [] (characters.count '\n')
            refuse Enclosure.quotes.unclosed
        else if head = '"' ∧ enclosure.opensQuotes then
          let inside : Enclosure := if enclosure.isMark then .markQuotes else .quotes
          let pieces ← piecesWithin nested fuel inside
          match pieces with
          | [.parameter ['@'] .keep [] true] => onward pieces enclosure
          | _ => onward (.quotes :: pieces) enclosure
        else
          match enclosure with
          | .quotes | .markQuotes =>
            if head = '"' then return [] else onward [.character head true] enclosure
          | .braces => if head = '}' then return [] else onward [.character head false] enclosure
          | .quotedBraces inner =>
            if head = '"' then onward [] (.quotedBraces !inner)
            else if head = '}' ∧ ¬ inner then return []
            else onward [.character head true] enclosure
          | .sum depth =>
            if head = '(' then onward [.character head true] (.sum (depth + 1))
            else if head = ')' then
              match depth with
              | depth + 1 => onward [.character head true] (.sum depth)
              | 0 =>
                if ← takeIf ')' then return [] else onward [.character head true] enclosure
            else onward [.character head true] enclosure
          | .document => onward [.character head true] enclosure
          | .bare | .mark => onward [.character head false] enclosure

/-- The pieces that a dollar sign and what stands behind it make. -/
def dollarWithin (nested : Reading Unit) : Nat → Enclosure → Reading (List Piece)
  | 0, _ => refuse "script nested too deeply"
  | fuel + 1, enclosure => do
    let quoted := enclosure.isQuoted
    match ← front with
    | '(' :: rest =>
      goOn rest 0
      if ← takeIf '(' then return [.sum (← piecesWithin nested fuel (.sum 0)) quoted]
      else
        let line := (← get).line
        return [.substitution (← parenthesized nested) line quoted]
    | '{' :: rest =>
      goOn rest 0
      let (name?, measures) ← bracedName
      match name?, measures with
      | some name, true =>
        if ← takeIf '}' then return [.parameter name .measure [] quoted]
        else
          let _ ← piecesWithin nested fuel (operandEnclosure enclosure .unknown)
          return [.parameter name .unknown [] quoted]
      | some name, false =>
        match ← bracedChange? with
        | none => return [.parameter name .keep [] quoted]
        | some change =>
          let operand ← piecesWithin nested fuel (operandEnclosure enclosure change)
          return [.parameter name change operand quoted]
      | none, _ =>
        let _ ← piecesWithin nested fuel (operandEnclosure enclosure .unknown)
        return [.parameter [] .unknown [] quoted]
    | head :: rest =>
      if startsName head then
        return [.parameter (← takeWhile continuesName) .keep [] quoted]
      else if isSpecialParameter head then
        goOn rest 0
        return [.parameter [head] .keep [] quoted]
      else return [.character '$' quoted]
    | [] => return [.character '$' quoted]

end

/-- The pieces up to the end of an enclosure. -/
def pieces (nested : Reading Unit) (enclosure : Enclosure) : Reading Word := do
  piecesWithin nested (2 * (← get).rest.length + 4) enclosure

/-! ### Tokens -/

/-- The sign of a redirection that begins with this character. -/
def redirectionSign (first : Char) : Reading Text := do
  if first = '<' then
    if ← takeIf '<' then return if ← takeIf '-' then "<<-".toList else "<<".toList
    else if ← takeIf '&' then return "<&".toList
    else if ← takeIf '>' then return "<>".toList
    else return ['<']
  else if ← takeIf '>' then return ">>".toList
  else if ← takeIf '|' then return ">|".toList
  else if ← takeIf '&' then return ">&".toList
  else return ['>']

/-- The token that a word makes. A sign of redirection right behind an empty word or a single
digit belongs to it. -/
def tokenOfWord (word : Word) : Reading Token := do
  match ← front with
  | head :: rest =>
    let standard := if head = '<' then 0 else 1
    let descriptor? :=
      match word with
      | [] => some standard
      | [.character digit false] =>
        if digit.isDigit then some (digit.toNat - '0'.toNat) else none
      | _ => none
    match descriptor? with
    | some descriptor =>
      if head = '<' ∨ head = '>' then
        goOn rest 0
        return .redirection (← redirectionSign head) descriptor
      else return .word word
    | none => return .word word
  | [] => return .word word

/-- An operator that may stand twice in a row. -/
def operator (symbol : Char) : Reading Token := do
  if ← takeIf symbol then return .operator [symbol, symbol] else return .operator [symbol]

/-- The next token of the text. -/
def tokenWithin (nested : Reading Unit) (enclosure : Enclosure) : Nat → Reading Token
  | 0 => pure .scriptEnd
  | fuel + 1 => do
    match ← front with
    | [] => return .scriptEnd
    | head :: rest =>
      if head = ' ' ∨ head = '\t' then
        goOn rest 0
        tokenWithin nested enclosure fuel
      else if head = '#' then
        goOn (rest.dropWhile (· != '\n')) 0
        tokenWithin nested enclosure fuel
      else if head = '\n' then
        goOn rest 1
        return .lineEnd
      else if head = '(' ∨ head = ')' then
        goOn rest 0
        return .operator [head]
      else if head = '&' ∨ head = '|' ∨ head = ';' then
        goOn rest 0
        operator head
      else tokenOfWord (← pieces nested enclosure)

/-- Look at the next token. -/
def peek (nested : Reading Unit) : Reading Token := do
  match (← get).ahead? with
  | some token => return token
  | none =>
    let token ← tokenWithin nested .bare ((← get).rest.length + 1)
    modify fun source => { source with ahead? := some token }
    return token

/-- Take the token that was looked at. -/
def advance : Reading Unit := modify fun source => { source with ahead? := none }

/-- Take the next token. -/
def take (nested : Reading Unit) : Reading Token := do
  let token ← peek nested
  advance
  return token

/-- Take the word that ends an announced text. -/
def takeMark (nested : Reading Unit) : Reading Token := do
  match (← get).ahead? with
  | some token =>
    advance
    return token
  | none => tokenWithin nested .mark ((← get).rest.length + 1)

/-! ### Announced texts -/

/-- Does a line go on in the next one, because a backslash that is not quoted itself ends it? -/
def goesOn (line : Text) : Bool := (line.reverse.takeWhile (· == '\\')).length % 2 == 1

/-- The lines of an announced text up to its mark. `starts` tells whether a line begins here that
may be the mark. -/
def linesWithin (document : AwaitedDocument) : Nat → Bool → Reading Text
  | 0, _ => pure []
  | fuel + 1, starts => do
    let rest := (← get).rest
    let rest := if starts ∧ document.stripsTabs then rest.dropWhile (· == '\t') else rest
    let line := rest.takeWhile (· != '\n')
    match rest.dropWhile (· != '\n') with
    | _ :: behind =>
      goOn behind 1
      if starts ∧ line = document.mark then return []
      else
        let others ← linesWithin document fuel (document.isLiteral || !goesOn line)
        return line ++ '\n' :: others
    | [] =>
      goOn [] 0
      return if starts ∧ line = document.mark then [] else line

/-- Read an announced text. -/
def document (nested : Reading Unit) (awaited : AwaitedDocument) : Reading Word := do
  let line := (← get).line
  let text ← linesWithin awaited ((← get).rest.length + 1) true
  if awaited.isLiteral then return text.map (.character · true)
  else
    let outer ← get
    set ({ rest := text, line } : Source)
    let word ← pieces nested .document
    set outer
    return word

/-- Read announced texts, one after the other. -/
def documentsOf (nested : Reading Unit) : List AwaitedDocument → Reading (List Word)
  | [] => pure []
  | awaited :: others => do
    let word ← document nested awaited
    return word :: (← documentsOf nested others)

/-- Read the texts that have been announced. -/
def awaitedDocuments (nested : Reading Unit) : Reading Unit := do
  let words ← documentsOf nested (← get).awaited
  modify fun source => { source with awaited := [], documents := source.documents ++ words }

end Reading

end AssetPipeline.Shell
