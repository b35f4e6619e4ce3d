/-
This file holds the commands about the working directory and about the modes of new files. The
working directory is known by the name it was reached by, from which `..` takes a component away,
and by the names that lead there without links.
-/

import AssetPipeline.Shell.Builtin.Answer

namespace AssetPipeline.Shell

namespace Command

/-- The components of a path, where `..` takes the one in front away. -/
def normalized (components : List Text) : List Text :=
  (components.foldl
    (fun reversed component =>
      if Path.isIdle component then reversed
      else if component = Path.dotDot then reversed.drop 1
      else component :: reversed) []).reverse

/-- The path of a directory, seen from another one. -/
def directoryFrom (directory target : Text) : Text :=
  let start := if target.head? = some '/' then [] else Text.splitOn '/' directory
  let isDouble := target.take 2 == ['/', '/'] && (target.drop 2).head? != some '/'
  let path := '/' :: Text.joinWith '/' (normalized (start ++ Text.splitOn '/' target))
  if isDouble then '/' :: path else path

/-- The working directory by the names that lead there without links. -/
def trueDirectory (process : Process) : Text :=
  Text.octets process.system.tree.workingDirectory.path.text

/-- Go to a directory, if there is one; the answer tells so. -/
def goTo (isTrue : Bool) (target : Text) : Act Bool := do
  let process ← get
  let tree := process.system.tree
  let path := if isTrue then target else directoryFrom process.directory target
  match tree.locate (pathOf path) with
  | .error _ => return false
  | .ok location =>
    if tree.isDirectoryAt location then
      let moved := { tree with workingDirectory := location }
      let there := { process with system := { process.system with tree := moved } }
      let directory := if isTrue then trueDirectory there else path
      set { there with directory }
      Process.assign Process.formerDirectory process.directory
      Process.share Process.formerDirectory
      Process.assign Process.workingDirectory directory
      Process.share Process.workingDirectory
      return true
    else return false

/-- The directories that a target may be meant to be in; those that are named are told to the
user. -/
def startingPoints (process : Process) (target : Text) : List (Text × Bool) :=
  let isDirect :=
    match Text.splitOn '/' target with
    | first :: _ => first == Path.dot || first == Path.dotDot || target.head? == some '/'
    | [] => true
  if isDirect then []
  else
    match process.value? (ascii "CDPATH") with
    | none => []
    | some directories => (Text.splitOn ':' directories).map fun directory =>
      if directory.isEmpty then (target, false) else (directory ++ '/' :: target, true)

/-- Change the working directory. -/
def changing : Command := fun arguments => do
  let (chosen, operands) ← choices "LP" "" arguments
  let isTrue := (chosen.getLast?.map Choice.letter) == some 'P'
  let process ← get
  let goesBack := operands.head? == some ['-']
  let target :=
    if goesBack then process.valueOf Process.formerDirectory
    else (operands.head?).getD (process.valueOf Process.homeDirectory)
  let wanted := if target.isEmpty then ['.'] else target
  let isThere (path : Text) : Bool := process.system.tree.isDirectory (pathOf path)
  let start := (startingPoints process wanted).find? fun (path, _) => isThere path
  let (path, tells) := start.getD (wanted, false)
  if ← goTo isTrue path then
    let directory := (← get).directory
    return { printed := if goesBack || tells then directory ++ ['\n'] else [] }
  else Process.fail s!"can't cd to {written target}"

def tellingDirectory : Command := fun arguments => do
  let (chosen, _) ← choices "LP" "" arguments
  let process ← get
  let isTrue := (chosen.getLast?.map Choice.letter) == some 'P'
  return { printed := (if isTrue then trueDirectory process else process.directory) ++ ['\n'] }

/-! ### Modes of new files -/

def allBits : Nat := 0o777

/-- The bits that stay of some when others are taken away. -/
def withoutBits (bits others : Nat) : Nat := bits - (bits &&& others)

def bitsOfUsers (users : Text) : Nat :=
  users.foldl
    (fun bits user =>
      bits ||| match user with
        | 'u' => 0o700
        | 'g' => 0o070
        | 'o' => 0o007
        | _ => allBits) 0

def bitsOfPermissions (permissions : Text) : Nat :=
  permissions.foldl
    (fun bits permission =>
      bits ||| match permission with
        | 'r' => 0o444
        | 'w' => 0o222
        | 'x' => 0o111
        | _ => 0) 0

/-- Change the bits of users as signs and permissions say; none if they say nothing. -/
def changedBits? (users : Nat) : Nat → Text → Nat → Option Nat
  | 0, _, bits => some bits
  | fuel + 1, text, bits =>
    match text with
    | [] => some bits
    | sign :: rest =>
      let isPermission (character : Char) : Bool := "rwxXst".toList.contains character
      let named := bitsOfPermissions (rest.takeWhile isPermission) &&& users
      let behind := rest.dropWhile isPermission
      match sign with
      | '+' => changedBits? users fuel behind (bits ||| named)
      | '-' => changedBits? users fuel behind (withoutBits bits named)
      | '=' => changedBits? users fuel behind (withoutBits bits users ||| named)
      | _ => none

/-- The bits that a change makes of others; none if it is no change. -/
def clauseBits? (clause : Text) (bits : Nat) : Option Nat :=
  let isUser (character : Char) : Bool := "ugoa".toList.contains character
  let users := clause.takeWhile isUser
  let changes := clause.dropWhile isUser
  if changes.isEmpty then none
  else
    let selected := if users.isEmpty then allBits else bitsOfUsers users
    changedBits? selected changes.length changes bits

/-- The bits that are left out, for a reader. -/
def maskText (mask : Nat) : Text :=
  let digits := Nat.toDigits 8 mask
  List.replicate (4 - digits.length) '0' ++ digits

/-- The bits that are not left out, by their letters. -/
def symbolicMask (mask : Nat) : Text :=
  let letters (shift : Nat) : String :=
    let has (bit : Nat) : Bool := !mask.testBit (shift + bit)
    let permissions := [(2, 'r'), (1, 'w'), (0, 'x')].filter fun (bit, _) => has bit
    String.ofList (permissions.map (·.2))
  ascii s!"u={letters 6},g={letters 3},o={letters 0}"

/-- The mode bits that new files are made without. -/
def masking : Command := fun arguments => do
  let (chosen, operands) ← choices "S" "" arguments
  let mask := (← get).mask
  match operands with
  | [] =>
    let text := if chosen.isEmpty then maskText mask else symbolicMask mask
    return { printed := text ++ ['\n'] }
  | operand :: _ =>
    if operand.head?.any Char.isDigit then
      if operand.all (Numeral.isDigitIn 8) then
        let wanted := Numeral.ofDigits 8 operand &&& allBits
        modify fun process => { process with mask := wanted }
        return {}
      else Process.fail s!"Illegal number: {written operand}"
    else
      let clauses := Text.splitOn ',' operand
      let bits? := clauses.foldl (fun bits? clause => bits?.bind (clauseBits? clause))
        (some (withoutBits allBits mask))
      match bits? with
      | some bits =>
        modify fun process => { process with mask := withoutBits allBits bits }
        return {}
      | none => Process.fail s!"Illegal mode: {written operand}"

end Command

end AssetPipeline.Shell
