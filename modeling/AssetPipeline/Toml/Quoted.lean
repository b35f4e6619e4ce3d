/-
This file reads quoted text. A basic string, in double quotes, knows escapes; a literal string, in
single quotes, does not. With three quotes at either end a string may hold line ends, and up to
two quotes right before the closing three; a line end right behind the opening quotes does not
count. In a basic string of that kind a backslash at the end of a line skips the line end and
every blank up to the next character.
-/

import AssetPipeline.Toml.Value

namespace AssetPipeline.Toml

/-- May a character stand in a string or comment? Of the control characters only the tab may. -/
def isPlain (character : Char) : Bool :=
  character == '\t' || (' ' ≤ character && character != '\x7f')

def isSpacing (character : Char) : Bool := character == ' ' || character == '\t'

/-- The character a short escape stands for. -/
def shortEscape? : Char → Option Char
  | 'b' => some '\x08'
  | 'e' => some '\x1b'
  | 't' => some '\t'
  | 'n' => some '\n'
  | 'f' => some '\x0c'
  | 'r' => some '\r'
  | '"' => some '"'
  | '\\' => some '\\'
  | _ => none

/-- The value of a hexadecimal digit. -/
def hexValue? (character : Char) : Option Nat :=
  if '0' ≤ character ∧ character ≤ '9' then some (character.toNat - '0'.toNat)
  else if 'a' ≤ character ∧ character ≤ 'f' then some (character.toNat - 'a'.toNat + 10)
  else if 'A' ≤ character ∧ character ≤ 'F' then some (character.toNat - 'A'.toNat + 10)
  else none

/-- The character with this hexadecimal code. -/
def codeEscape? (digits : List Char) : Option Char :=
  let code? := digits.foldl (fun code? digit =>
    match code?, hexValue? digit with
    | some code, some value => some (code * 16 + value)
    | _, _ => none) (some 0)
  match code? with
  | some code =>
    if code < 0xD800 ∨ (0xE000 ≤ code ∧ code < 0x110000) then some (Char.ofNat code) else none
  | none => none

/-- A quoted text that has begun with `read`, and what stands behind its closing quote. -/
def basicFrom (read : Text) : Text → Option (Text × Text)
  | '"' :: rest => some (read, rest)
  | '\\' :: 'x' :: a :: b :: rest =>
    match codeEscape? [a, b] with
    | some character => basicFrom (read ++ [character]) rest
    | none => none
  | '\\' :: 'u' :: a :: b :: c :: d :: rest =>
    match codeEscape? [a, b, c, d] with
    | some character => basicFrom (read ++ [character]) rest
    | none => none
  | '\\' :: 'U' :: a :: b :: c :: d :: e :: f :: g :: h :: rest =>
    match codeEscape? [a, b, c, d, e, f, g, h] with
    | some character => basicFrom (read ++ [character]) rest
    | none => none
  | '\\' :: escape :: rest =>
    match shortEscape? escape with
    | some character => basicFrom (read ++ [character]) rest
    | none => none
  | character :: rest =>
    if isPlain character && character != '\\' then basicFrom (read ++ [character]) rest else none
  | [] => none

/-- A literal text that has begun with `read`, and what stands behind its closing quote. -/
def literalFrom (read : Text) : Text → Option (Text × Text)
  | '\'' :: rest => some (read, rest)
  | character :: rest =>
    if isPlain character then literalFrom (read ++ [character]) rest else none
  | [] => none

def startsLineEnd : Text → Bool
  | '\n' :: _ => true
  | '\r' :: '\n' :: _ => true
  | _ => false

/-- A basic text of several lines. While `skips`, blanks and line ends do not count. -/
def longBasicFrom (read : Text) (skips : Bool) : Text → Option (Text × Text)
  | '"' :: '"' :: '"' :: '"' :: '"' :: rest => some (read ++ ['"', '"'], rest)
  | '"' :: '"' :: '"' :: '"' :: rest => some (read ++ ['"'], rest)
  | '"' :: '"' :: '"' :: rest => some (read, rest)
  | '\\' :: 'x' :: a :: b :: rest =>
    match codeEscape? [a, b] with
    | some character => longBasicFrom (read ++ [character]) false rest
    | none => none
  | '\\' :: 'u' :: a :: b :: c :: d :: rest =>
    match codeEscape? [a, b, c, d] with
    | some character => longBasicFrom (read ++ [character]) false rest
    | none => none
  | '\\' :: 'U' :: a :: b :: c :: d :: e :: f :: g :: h :: rest =>
    match codeEscape? [a, b, c, d, e, f, g, h] with
    | some character => longBasicFrom (read ++ [character]) false rest
    | none => none
  | '\\' :: escape :: rest =>
    match shortEscape? escape with
    | some character => longBasicFrom (read ++ [character]) false rest
    | none =>
      if startsLineEnd ((escape :: rest).dropWhile isSpacing) then
        if isSpacing escape || escape == '\n' || escape == '\r' then
          longBasicFrom read true rest
        else none
      else none
  | '\r' :: '\n' :: rest =>
    if skips then longBasicFrom read true rest
    else longBasicFrom (read ++ ['\r', '\n']) false rest
  | '\n' :: rest =>
    if skips then longBasicFrom read true rest else longBasicFrom (read ++ ['\n']) false rest
  | character :: rest =>
    if skips && isSpacing character then longBasicFrom read true rest
    else if isPlain character && character != '\\' then
      longBasicFrom (read ++ [character]) false rest
    else none
  | [] => none

/-- A literal text of several lines. -/
def longLiteralFrom (read : Text) : Text → Option (Text × Text)
  | '\'' :: '\'' :: '\'' :: '\'' :: '\'' :: rest => some (read ++ ['\'', '\''], rest)
  | '\'' :: '\'' :: '\'' :: '\'' :: rest => some (read ++ ['\''], rest)
  | '\'' :: '\'' :: '\'' :: rest => some (read, rest)
  | '\r' :: '\n' :: rest => longLiteralFrom (read ++ ['\r', '\n']) rest
  | '\n' :: rest => longLiteralFrom (read ++ ['\n']) rest
  | character :: rest =>
    if isPlain character then longLiteralFrom (read ++ [character]) rest else none
  | [] => none

/-- Without a line end at the front. -/
def dropLineEnd : Text → Text
  | '\n' :: rest => rest
  | '\r' :: '\n' :: rest => rest
  | text => text

/-- A quoted text on one line, and what stands behind it. -/
def quoted? : Text → Option (Text × Text)
  | '"' :: rest => basicFrom [] rest
  | '\'' :: rest => literalFrom [] rest
  | _ => none

/-- A quoted text of either kind, and what stands behind it. -/
def string? : Text → Option (Text × Text)
  | '"' :: '"' :: '"' :: rest => longBasicFrom [] false (dropLineEnd rest)
  | '\'' :: '\'' :: '\'' :: rest => longLiteralFrom [] (dropLineEnd rest)
  | text => quoted? text

end AssetPipeline.Toml
