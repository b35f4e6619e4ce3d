/-
This file reads the tokens of a shell script as statements. A script is read a command at a time,
each up to the end of a line, because what a command does may come before a later one is found to
be unreadable. Words such as `fi` close what is around them, but only where a command could begin.
-/

import AssetPipeline.Shell.Token

namespace AssetPipeline.Shell

/-- The words with a meaning of their own where a command could begin. -/
def keywords : List String :=
  ["!", "case", "do", "done", "elif", "else", "esac", "fi", "for", "if", "in", "then", "until",
    "while", "\x7b", "\x7d"]

/-- The commands that belong to the language itself: what goes wrong in them ends the script. -/
def specialCommands : List String :=
  [".", ":", "break", "continue", "eval", "exec", "exit", "export", "local", "readonly", "return",
    "set", "shift", "times", "trap", "unset"]

def isAmong (strings : List String) (text : Text) : Bool :=
  strings.any fun string => string.toList == text

namespace Token

def word? : Token → Option Word
  | .word pieces => some pieces
  | _ => none

/-- The text of a word in which nothing is quoted or replaced. -/
def bare? : Token → Option Text
  | .word pieces => pieces.bare?
  | _ => none

def isOperator (token : Token) (symbol : String) : Bool :=
  match token with
  | .operator found => found == symbol.toList
  | _ => false

/-- Is a token this word, without quotes? -/
def isBare (token : Token) (text : String) : Bool := token.bare? == some text.toList

def isLineEnd : Token → Bool
  | .lineEnd => true
  | _ => false

def isScriptEnd : Token → Bool
  | .scriptEnd => true
  | _ => false

/-- Is a token a word with a meaning of its own? -/
def isKeyword (token : Token) : Bool := keywords.any token.isBare

/-- The words that close what is around a list of statements. -/
def closers : List String := ["then", "elif", "else", "fi", "do", "done", "esac"]

def endsList (token : Token) : Bool :=
  match token with
  | .scriptEnd => true
  | .operator symbol => symbol == [')'] || symbol == [';', ';']
  | _ => closers.any token.isBare || token.isBare "\x7d"

/-- What a token is called in complaints. -/
def called (token : Token) : String :=
  match token with
  | .scriptEnd => "end of file"
  | .lineEnd => "newline"
  | .redirection .. => "redirection"
  | .operator symbol => s!"\"{String.ofList symbol}\""
  | .word pieces =>
    match pieces.bare? with
    | some text => if isAmong keywords text then s!"\"{String.ofList text}\"" else "word"
    | none => "word"

end Token

/-- Where a list of statements stands, which decides what ends it. -/
inductive ListPlace where
  | line
  /-- Inside another statement; there has to be a statement. -/
  | inside
  /-- Where it may be empty. -/
  | optional
  deriving DecidableEq

namespace Reading

/-- The script cannot be read because of this token. -/
def refuseToken {Result : Type} (token : Token) : Reading Result :=
  refuse s!"{token.called} unexpected"

/-- The script cannot be read because this token is not the one expected. -/
def refuseInstead {Result : Type} (token : Token) (expected : String) : Reading Result :=
  refuse s!"{token.called} unexpected (expecting \"{expected}\")"

/-- Take this word, without quotes. -/
def expectBare (nested : Reading Unit) (word : String) : Reading Unit := do
  let token ← take nested
  if ¬ token.isBare word then refuseInstead token word

def expectOperator (nested : Reading Unit) (symbol : String) : Reading Unit := do
  let token ← take nested
  if ¬ token.isOperator symbol then refuseInstead token symbol

/-- Take the next token if it is this word, without quotes. -/
def takeBare (nested : Reading Unit) (word : String) : Reading Bool := do
  if (← peek nested).isBare word then
    advance
    return true
  else return false

/-- Take the next token if it is this operator. -/
def takeOperator (nested : Reading Unit) (symbol : String) : Reading Bool := do
  if (← peek nested).isOperator symbol then
    advance
    return true
  else return false

/-- Pass over line ends, and read the texts that were announced before them. -/
def skipLineEndsWithin (nested : Reading Unit) : Nat → Reading Unit
  | 0 => pure ()
  | fuel + 1 => do
    if (← peek nested).isLineEnd then
      advance
      awaitedDocuments nested
      skipLineEndsWithin nested fuel

/-- Pass over line ends, and read the texts that were announced before them. -/
def skipLineEnds (nested : Reading Unit) : Reading Unit := do
  skipLineEndsWithin nested ((← get).rest.length + 2)

/-- Is an alias being replaced? It is until the text that replaced it has been passed. -/
def isReplaced (source : Source) (name : Text) : Bool :=
  source.replaced.any fun (other, behind) => other == name && behind ≤ source.rest.length

/-- Look at the next token, where aliases are replaced. -/
def peekReplacedWithin (nested : Reading Unit) (keepsKeywords : Bool) : Nat → Reading Token
  | 0 => peek nested
  | fuel + 1 => do
    let token ← peek nested
    let source ← get
    match token.bare?.bind fun name => (source.aliases.lookup name).map ((name, ·)) with
    | some (name, text) =>
      if isReplaced source name || (keepsKeywords && token.isKeyword) then return token
      else
        set { source with
          rest := text ++ source.rest
          ahead? := none
          replaced := (name, source.rest.length) :: source.replaced }
        peekReplacedWithin nested keepsKeywords fuel
    | none => return token

/-- Look at the next token, where aliases are replaced. -/
def peekReplaced (nested : Reading Unit) (keepsKeywords : Bool) : Reading Token := do
  peekReplacedWithin nested keepsKeywords ((← get).aliases.length + 1)

/-- Look at the token that a command may begin with. -/
def peekCommand (nested : Reading Unit) (skips : Bool) : Reading Token := do
  if skips then skipLineEnds nested
  peekReplaced nested true

/-! ### Redirections -/

/-- The redirection that a sign and the word behind it make. A text that is announced gets a
number. -/
def redirectionOf (nested : Reading Unit) (sign : Text) (descriptor : Nat) :
    Reading Redirection := do
  if sign = "<<".toList ∨ sign = "<<-".toList then
    match ← takeMark nested with
    | .word mark =>
      let source ← get
      let awaited : AwaitedDocument := ⟨mark.characters, sign = "<<-".toList, mark.isQuoted⟩
      set { source with awaited := source.awaited ++ [awaited] }
      return ⟨descriptor, .awaited (source.documents.length + source.awaited.length)⟩
    | token => refuseToken token
  else
    match ← take nested with
    | .word target =>
      let redirect :=
        if sign = ['<'] then Redirect.read target
        else if sign = ['>'] then .write target
        else if sign = ">|".toList then .overwrite target
        else if sign = ">>".toList then .append target
        else if sign = "<>".toList then .update target
        else .duplicate target
      return ⟨descriptor, redirect⟩
    | token => refuseToken token

/-- Redirections up to something else. -/
def redirectionsWithin (nested : Reading Unit) : Nat → Reading (List Redirection)
  | 0 => pure []
  | fuel + 1 => do
    match ← peek nested with
    | .redirection sign descriptor =>
      advance
      let redirection ← redirectionOf nested sign descriptor
      return redirection :: (← redirectionsWithin nested fuel)
    | _ => return []

/-- Redirections up to something else. -/
def redirections (nested : Reading Unit) : Reading (List Redirection) := do
  redirectionsWithin nested ((← get).rest.length + 2)

/-! ### Simple commands -/

/-- The words and redirections of a simple command, up to something else. Aliases are replaced
in its assignments and its first word. -/
def simpleWithin (nested : Reading Unit) : Nat → SimpleCommand → Reading SimpleCommand
  | 0, command => pure command
  | fuel + 1, command => do
    let token ← if command.words.isEmpty then peekReplaced nested false else peek nested
    match token with
    | .word word =>
      advance
      match assignment? word, command.words with
      | some assignment, [] =>
        simpleWithin nested fuel
          { command with assignments := command.assignments ++ [assignment] }
      | _, _ => simpleWithin nested fuel { command with words := command.words ++ [word] }
    | .redirection sign descriptor =>
      advance
      let redirection ← redirectionOf nested sign descriptor
      simpleWithin nested fuel
        { command with redirections := command.redirections ++ [redirection] }
    | _ => return command

/-- A simple command, up to something else. -/
def simple (nested : Reading Unit) : Reading SimpleCommand := do
  simpleWithin nested ((← get).rest.length + 2) ⟨(← get).line, [], [], []⟩

/-- The name that a command defines if an empty pair of parentheses follows it. -/
def definedWord? (command : SimpleCommand) : Option Word :=
  match command with
  | ⟨_, [], [word], []⟩ => some word
  | _ => none

def definedName (word : Word) : Reading Text :=
  match word.bare? with
  | some name =>
    if isName name ∧ ¬ isAmong specialCommands name then pure name else refuse "Bad function name"
  | none => refuse "Bad function name"

/-! ### Statements -/

/-- Words up to something else. -/
def wordsWithin (nested : Reading Unit) : Nat → Reading (List Word)
  | 0 => pure []
  | fuel + 1 => do
    match ← peek nested with
    | .word word =>
      advance
      return word :: (← wordsWithin nested fuel)
    | _ => return []

/-- The words of a loop, behind `in`, up to the end of the line or a semicolon. -/
def loopWords (nested : Reading Unit) : Reading (List Word) := do
  let words ← wordsWithin nested ((← get).rest.length + 2)
  let token ← take nested
  if token.isLineEnd || token.isOperator ";" then return words else refuseToken token

/-- The patterns of a branch, with bars between them, up to the closing parenthesis. What is no word
counts as an empty one. -/
def patternsWithin (nested : Reading Unit) : Nat → Reading (List Word)
  | 0 => pure []
  | fuel + 1 => do
    let pattern := (← take nested).word?.getD []
    if ← takeOperator nested "|" then return pattern :: (← patternsWithin nested fuel)
    else
      match ← take nested with
      | .operator [')'] => return [pattern]
      | .word _ => refuse "word unexpected (expecting \")\")"
      | token => refuseInstead token ")"

/-- The patterns of a branch, with bars between them, up to the closing parenthesis. -/
def patterns (nested : Reading Unit) : Reading (List Word) := do
  let _ ← takeOperator nested "("
  patternsWithin nested ((← get).rest.length + 2)

/-- The words that loops without words go through. -/
def allArguments : List Word := [[.parameter ['@'] .keep [] true]]

mutual

/-- Statements up to what ends the list. -/
def listWithin : Nat → ListPlace → Reading Statement
  | 0, _ => refuse "script nested too deeply"
  | fuel + 1, place => do
    let nested := scriptWithin fuel
    let token ← peekCommand nested (place != .line)
    if place = .optional ∧ token.endsList ∨ token.isScriptEnd then return .idle
    else if place = .line ∧ token.isLineEnd then
      advance
      awaitedDocuments nested
      return .idle
    else statementsWithin fuel place

/-- Statements, of which there is at least one, up to what ends the list. -/
def statementsWithin : Nat → ListPlace → Reading Statement
  | 0, _ => refuse "script nested too deeply"
  | fuel + 1, place => do
    let nested := scriptWithin fuel
    let first ← chainWithin fuel
    let token ← peek nested
    let line := (← get).line
    let isBackground := token.isOperator "&"
    let statement := if isBackground then .background line first [] else first
    if isBackground || token.isOperator ";" then advance
    else if ¬ token.isLineEnd then
      match token, place with
      | .scriptEnd, .line =>
        awaitedDocuments nested
        return statement
      | _, .line => refuseToken token
      | _, _ => return statement
    let next ← peekCommand nested (place != .line)
    match next, place with
    | .lineEnd, .line =>
      advance
      awaitedDocuments nested
      return statement
    | .scriptEnd, _ => return statement
    | _, .line => return .sequence statement (← statementsWithin fuel place)
    | _, _ =>
      if next.endsList then return statement
      else return .sequence statement (← statementsWithin fuel place)

/-- Pipelines with `&&` and `||` between them. -/
def chainWithin : Nat → Reading Statement
  | 0 => refuse "script nested too deeply"
  | fuel + 1 => do chainFrom fuel (← linkWithin fuel false)

/-- The rest of a chain that begins with `first`. -/
def chainFrom : Nat → Statement → Reading Statement
  | 0, _ => refuse "script nested too deeply"
  | fuel + 1, first => do
    let nested := scriptWithin fuel
    if ← takeOperator nested "&&" then
      let second ← linkWithin fuel true
      chainFrom fuel (.both first second)
    else if ← takeOperator nested "||" then
      let second ← linkWithin fuel true
      chainFrom fuel (.either first second)
    else return first

/-- A pipeline, or the negation of one. -/
def linkWithin : Nat → Bool → Reading Statement
  | 0, _ => refuse "script nested too deeply"
  | fuel + 1, skips => do
    let nested := scriptWithin fuel
    let token ← peekCommand nested skips
    if token.isBare "!" then
      advance
      return .negated (← pipelineWithin fuel)
    else pipelineWithin fuel

/-- Commands with bars between them. -/
def pipelineWithin : Nat → Reading Statement
  | 0 => refuse "script nested too deeply"
  | fuel + 1 => do pipesFrom fuel (← commandWithin fuel false)

/-- The rest of a pipeline that begins with `first`. -/
def pipesFrom : Nat → Statement → Reading Statement
  | 0, _ => refuse "script nested too deeply"
  | fuel + 1, first => do
    if ← takeOperator (scriptWithin fuel) "|" then
      let second ← commandWithin fuel true
      return .pipe first (← pipesFrom fuel second)
    else return first

def commandWithin : Nat → Bool → Reading Statement
  | 0, _ => refuse "script nested too deeply"
  | fuel + 1, skips => do
    let nested := scriptWithin fuel
    let line := (← get).line
    let token ← peekCommand nested skips
    match token with
    | .redirection .. => return .simple (← simple nested)
    | .operator ['('] =>
      advance
      let body ← listWithin fuel .inside
      expectOperator nested ")"
      return .subshell line body (← redirections nested)
    | .word _ =>
      if token.isKeyword then
        advance
        let body ← compoundWithin fuel token line
        match ← redirections nested with
        | [] => return body
        | redirections => return .redirected line body redirections
      else
        let command ← simple nested
        match definedWord? command with
        | none => return .simple command
        | some word =>
          if ← takeOperator nested "(" then
            expectOperator nested ")"
            let name ← definedName word
            let line := (← get).line
            return .define line name (← commandWithin fuel true)
          else return .simple command
    | token => refuseToken token

/-- A command behind the keyword it begins with. -/
def compoundWithin : Nat → Token → Nat → Reading Statement
  | 0, _, _ => refuse "script nested too deeply"
  | fuel + 1, keyword, line => do
    let nested := scriptWithin fuel
    if keyword.isBare "if" then choiceWithin fuel
    else if keyword.isBare "while" ∨ keyword.isBare "until" then
      let condition ← listWithin fuel .inside
      let body ← bodyWithin fuel
      return .loop (keyword.isBare "until") condition body
    else if keyword.isBare "for" then eachWithin fuel line
    else if keyword.isBare "case" then
      match ← take nested with
      | .word word =>
        skipLineEnds nested
        expectBare nested "in"
        return .select line word (← branchesWithin fuel)
      | token => refuse s!"{token.called} unexpected (expecting word)"
    else if keyword.isBare "\x7b" then
      let body ← listWithin fuel .inside
      expectBare nested "\x7d"
      return body
    else refuseToken keyword

/-- A choice behind its `if` or `elif`. -/
def choiceWithin : Nat → Reading Statement
  | 0 => refuse "script nested too deeply"
  | fuel + 1 => do
    let nested := scriptWithin fuel
    let condition ← listWithin fuel .inside
    expectBare nested "then"
    let yes ← listWithin fuel .inside
    if ← takeBare nested "elif" then
      return .choice condition yes (← choiceWithin fuel)
    else if ← takeBare nested "else" then
      let no ← listWithin fuel .inside
      expectBare nested "fi"
      return .choice condition yes no
    else
      expectBare nested "fi"
      return .choice condition yes .idle

/-- The body of a loop, from its `do` to its `done`. -/
def bodyWithin : Nat → Reading Statement
  | 0 => refuse "script nested too deeply"
  | fuel + 1 => do
    let nested := scriptWithin fuel
    skipLineEnds nested
    expectBare nested "do"
    let body ← listWithin fuel .inside
    expectBare nested "done"
    return body

/-- A loop behind its `for`. -/
def eachWithin : Nat → Nat → Reading Statement
  | 0, _ => refuse "script nested too deeply"
  | fuel + 1, line => do
    let nested := scriptWithin fuel
    match (← take nested).bare? with
    | none => refuse "Bad for loop variable"
    | some name =>
      if ¬ isName name then refuse "Bad for loop variable"
      let token ← peekCommand nested true
      if token.isBare "in" then
        advance
        let words ← loopWords nested
        return .each line name words (← bodyWithin fuel)
      else
        let _ ← takeOperator nested ";"
        return .each line name allArguments (← bodyWithin fuel)

/-- The branches of a selection, up to its `esac`. -/
def branchesWithin : Nat → Reading Statement
  | 0 => refuse "script nested too deeply"
  | fuel + 1 => do
    let nested := scriptWithin fuel
    skipLineEnds nested
    if ← takeBare nested "esac" then return .idle
    else
      let patterns ← patterns nested
      let body ← listWithin fuel .optional
      skipLineEnds nested
      if ← takeBare nested "esac" then return .branch patterns body .idle
      else
        expectOperator nested ";;"
        return .branch patterns body (← branchesWithin fuel)

/-- A script up to the parenthesis that closes it. Texts announced in it end there too. -/
def scriptWithin : Nat → Reading Unit
  | 0 => refuse "script nested too deeply"
  | fuel + 1 => do
    let nested := scriptWithin fuel
    let _ ← listWithin fuel .optional
    expectOperator nested ")"

end

end Reading

namespace Source

/-- More levels than any script of this length has. -/
def nestingBound (source : Source) : Nat := 16 * source.rest.length + 64

/-- Is the script at its end? -/
def isFinished (source : Source) : Bool :=
  source.rest.isEmpty &&
    match source.ahead? with
    | none | some .scriptEnd => true
    | some _ => false

/-- The next command of the script, which is idle for an empty line, and the source behind it. -/
def command (source : Source) : Except SyntaxFault (Statement × Source) :=
  let fresh := { source with awaited := [], documents := [] }
  match (Reading.listWithin source.nestingBound .line).run fresh with
  | .error fault => .error fault
  | .ok (statement, behind) => .ok (statement.fill behind.documents, behind)

/-- The word that a text makes in which parameters are replaced, if it can be read. -/
def documentOf? (text : Text) : Option Word :=
  let source : Source := { rest := text }
  let nested := Reading.scriptWithin source.nestingBound
  match (Reading.pieces nested .document).run source with
  | .error _ => none
  | .ok (word, _) => some word

end Source

end AssetPipeline.Shell
