/-
This file decides the conditions that `test` and `[` are given as arguments. Whether an argument is
an operator may hang on what stands around it: in front of another operator it is an operand.
-/

import AssetPipeline.Shell.Glob
import AssetPipeline.Shell.Number

namespace AssetPipeline.Shell

/-- An argument of a condition, as it is understood where it stands. -/
inductive ConditionToken where
  /-- There is no argument any more. -/
  | finish
  | operand
  | unary (operator : String)
  | binary (operator : String)
  | negation
  | conjunction
  | disjunction
  | opening
  | closing
  deriving DecidableEq

namespace Condition

def unaryOperators : List String :=
  ["-r", "-w", "-x", "-e", "-f", "-d", "-c", "-b", "-p", "-u", "-g", "-k", "-s", "-t", "-z", "-n",
    "-h", "-O", "-G", "-L", "-S"]

/-- The operators with two operands. -/
def binaryOperators : List String :=
  ["=", "!=", "<", ">", "-eq", "-ne", "-ge", "-gt", "-le", "-lt", "-nt", "-ot", "-ef"]

def operator? (text : Text) : Option ConditionToken :=
  let string := String.ofList text
  if unaryOperators.contains string then some (.unary string)
  else if binaryOperators.contains string then some (.binary string)
  else
    match string with
    | "!" => some .negation
    | "-a" => some .conjunction
    | "-o" => some .disjunction
    | "(" => some .opening
    | ")" => some .closing
    | _ => none

/-- Is a text an operator with two operands? -/
def isBinary (text : Text) : Bool := binaryOperators.contains (String.ofList text)

/-- Is an operator with one operand an operand here? -/
def isOperand (rest : List Text) : Bool :=
  match rest with
  | [] => true
  | [_] => false
  | next :: _ => isBinary next

/-- How the first of some arguments is understood. -/
def token : List Text → ConditionToken
  | [] => .finish
  | head :: rest =>
    match operator? head with
    | some (.unary operator) => if isOperand rest then .operand else .unary operator
    | some .opening => if rest.isEmpty then .operand else .opening
    | some token => token
    | none => .operand

/-- The condition cannot be decided: an operator is not used as it should be. -/
def refuse {Result : Type} (operator : Text) (words : String) : Except String Result :=
  if operator.isEmpty then .error words else .error s!"{String.ofList operator}: {words}"

/-- The number that an operand writes. -/
def number (operand : Text) : Except String Int :=
  match decimal? operand with
  | some number => .ok number
  | none => .error s!"Illegal number: {String.ofList operand}"

/-! ### Operators -/

/-- The path of what all writing to is lost, which is no regular file. -/
def isDevice (operand : Text) : Bool := operand == "/dev/null".toList

/-- Does a test of the mode of a file hold? Directories can be written and searched. -/
def modeHolds (tree : FileTree) (operand : Text) (ofFile : Mode → Bool) (ofDirectory : Bool) :
    Bool :=
  match tree.lookup (pathOf operand) with
  | .ok (.file file) => ofFile file.mode
  | .ok .directory => ofDirectory
  | _ => false

/-- Is there a directory that may be listed? -/
def isListable (tree : FileTree) (operand : Text) : Bool :=
  match tree.locate (pathOf operand) with
  | .ok location => !tree.isClosedAt location
  | .error _ => false

def unaryHolds (tree : FileTree) (operator : String) (operand : Text) : Except String Bool :=
  let path := pathOf operand
  let exists? := (tree.lookup path).toOption.isSome
  let device := isDevice operand
  match operator with
  | "-n" => .ok !operand.isEmpty
  | "-z" => .ok operand.isEmpty
  | "-t" => (number operand).map fun _ => false
  | "-e" | "-O" | "-G" => .ok (device || exists?)
  | "-f" => .ok (tree.isFile path)
  | "-d" => .ok (tree.isDirectory path)
  | "-c" => .ok device
  | "-s" =>
    .ok (tree.isDirectory path || (tree.fileAt? path).any (!·.content.isEmpty))
  | "-r" => .ok (device || modeHolds tree operand Mode.ownerReads (isListable tree operand))
  | "-w" => .ok (device || modeHolds tree operand Mode.ownerWrites true)
  | "-x" => .ok (modeHolds tree operand Mode.ownerExecutes true)
  | "-u" => .ok (modeHolds tree operand (·.bits.testBit 11) false)
  | "-g" => .ok (modeHolds tree operand (·.bits.testBit 10) false)
  | "-k" => .ok (modeHolds tree operand (·.bits.testBit 9) false)
  | "-h" | "-L" =>
    match tree.place .entry path with
    | .ok (.found location) =>
      match tree.node? location with
      | some (.link _) => .ok true
      | _ => .ok false
    | _ => .ok false
  | _ => .ok false

/-- Was the first file modified after the second one? Both have to be there. -/
def isNewer (tree : FileTree) (first second : Text) : Bool :=
  match tree.modified (pathOf first), tree.modified (pathOf second) with
  | .ok newer, .ok older => !newer.notAfter older
  | _, _ => false

/-- Do two paths lead to the same place? -/
def isSame (tree : FileTree) (first second : Text) : Bool :=
  match tree.locate (pathOf first), tree.locate (pathOf second) with
  | .ok one, .ok other => one == other
  | _, _ => false

/-- Does a test of two operands hold? -/
def binaryHolds (tree : FileTree) (operator : String) (first second : Text) :
    Except String Bool := do
  let compared (holds : Int → Int → Bool) : Except String Bool := do
    return holds (← number first) (← number second)
  match operator with
  | "=" => return first == second
  | "!=" => return first != second
  | "<" => return Glob.notAfter first second && first != second
  | ">" => return !Glob.notAfter first second
  | "-eq" => compared fun one other => one == other
  | "-ne" => compared fun one other => one != other
  | "-ge" => compared fun one other => decide (other ≤ one)
  | "-gt" => compared fun one other => decide (other < one)
  | "-le" => compared fun one other => decide (one ≤ other)
  | "-lt" => compared fun one other => decide (one < other)
  | "-nt" => return isNewer tree first second
  | "-ot" => return isNewer tree second first
  | _ => return isSame tree first second

/-! ### Conditions -/

mutual

/-- Alternatives; what is left begins with the last argument that belongs to them. -/
def alternatives (tree : FileTree) : Nat → ConditionToken → List Text →
    Except String (Bool × List Text)
  | 0, _, rest => .ok (false, rest)
  | fuel + 1, first, arguments => do
    let (holds, rest) ← conjunctions tree fuel first arguments
    if token (rest.drop 1) = .disjunction then
      let behind := rest.drop 2
      let (others, left) ← alternatives tree fuel (token behind) behind
      return (holds || others, left)
    else return (holds, rest)

def conjunctions (tree : FileTree) : Nat → ConditionToken → List Text →
    Except String (Bool × List Text)
  | 0, _, rest => .ok (false, rest)
  | fuel + 1, first, arguments => do
    let (holds, rest) ← negations tree fuel first arguments
    if token (rest.drop 1) = .conjunction then
      let behind := rest.drop 2
      let (others, left) ← conjunctions tree fuel (token behind) behind
      return (holds && others, left)
    else return (holds, rest)

/-- A condition that may be negated. -/
def negations (tree : FileTree) : Nat → ConditionToken → List Text →
    Except String (Bool × List Text)
  | 0, _, rest => .ok (false, rest)
  | fuel + 1, first, arguments => do
    if first = .negation then
      let next := token (arguments.drop 1)
      let rest := if next = .finish then arguments else arguments.drop 1
      let (holds, left) ← negations tree fuel next rest
      return (!holds, left)
    else primary tree fuel first arguments

/-- A condition without operators around it. -/
def primary (tree : FileTree) : Nat → ConditionToken → List Text →
    Except String (Bool × List Text)
  | 0, _, rest => .ok (false, rest)
  | fuel + 1, first, arguments => do
    match first with
    | .finish => return (false, arguments)
    | .opening =>
      let inside := arguments.drop 1
      if token inside = .closing then return (false, inside)
      else
        let (holds, left) ← alternatives tree fuel (token inside) inside
        if token (left.drop 1) = .closing then return (holds, left.drop 1)
        else refuse [] "closing paren expected"
    | .unary operator =>
      match arguments.drop 1 with
      | [] => refuse operator.toList "argument expected"
      | operand :: rest => return (← unaryHolds tree operator operand, operand :: rest)
    | _ =>
      let operand := arguments.head?.getD []
      match token (arguments.drop 1) with
      | .binary operator =>
        match arguments.drop 2 with
        | [] => refuse operator.toList "argument expected"
        | second :: rest => return (← binaryHolds tree operator operand second, second :: rest)
      | _ => return (!operand.isEmpty, arguments)

end

/-- Does a condition hold that is read from its first argument on? -/
def wholeHolds (tree : FileTree) (first : ConditionToken) (arguments : List Text) :
    Except String Bool := do
  let (holds, rest) ← alternatives tree (8 * arguments.length + 8) first arguments
  match rest with
  | operator :: _ :: _ => refuse operator "unexpected operator"
  | _ => return holds

/-- The arguments between parentheses that stand around all of them. -/
def unwrapped? (arguments : List Text) : Option (List Text) :=
  if arguments.head? = some ['('] ∧ arguments.getLast? = some [')'] then
    some (arguments.drop 1).dropLast
  else none

/-- Does a condition hold? Few arguments are understood by their number. -/
def holds (tree : FileTree) (arguments : List Text) : Except String Bool :=
  match arguments with
  | [] => .ok false
  | [_, operator, _] =>
    if isBinary operator then wholeHolds tree .operand arguments else few arguments
  | [_, _, _, _] => few arguments
  | _ => wholeHolds tree (token arguments) arguments
where
  /-- Does a condition of three or four arguments hold? -/
  few (arguments : List Text) : Except String Bool :=
    match unwrapped? arguments, arguments with
    | some inside, _ => wholeHolds tree (token inside) inside
    | none, ['!'] :: rest =>
      match rest with
      | [_, operator, _] =>
        if isBinary operator then (wholeHolds tree .operand rest).map (!·)
        else (fewer rest).map (!·)
      | _ => (wholeHolds tree (token rest) rest).map (!·)
    | none, _ => wholeHolds tree (token arguments) arguments
  /-- Does a condition of three arguments behind a negation hold, of which the second one is no
  operator? Another negation does not count there. -/
  fewer (arguments : List Text) : Except String Bool :=
    match unwrapped? arguments, arguments with
    | some inside, _ => wholeHolds tree (token inside) inside
    | none, ['!'] :: rest => wholeHolds tree (token rest) rest
    | none, _ => wholeHolds tree (token arguments) arguments

end Condition

end AssetPipeline.Shell
