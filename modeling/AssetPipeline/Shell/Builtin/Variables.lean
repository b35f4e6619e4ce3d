/-
This file holds the commands about variables: those that share them with programs, fix them, keep
them to a function, take them away, or read them from a line of input.
-/

import AssetPipeline.Shell.Builtin.Answer

namespace AssetPipeline.Shell

namespace Command

/-- The part of an argument in front of the first equals sign, and the part behind it. -/
def assigned (argument : Text) : Text × Option Text :=
  let name := argument.takeWhile (· != '=')
  match argument.dropWhile (· != '=') with
  | [] => (name, none)
  | _ :: value => (name, some value)

/-- A variable as a script could set it. -/
def listed (name : Text) (value? : Option Text) : Text :=
  match value? with
  | none => name
  | some value => name ++ '=' :: quote value

/-- The variables that belong, in the order of their names, each behind a verb. -/
def listing (process : Process) (verb : Text) (belongs : Binding → Bool) : Text :=
  let kept := process.bindings.filter fun (_, binding) => belongs binding
  let sorted := kept.mergeSort fun (first, _) (second, _) => Glob.notAfter first second
  let front := if verb.isEmpty then [] else verb ++ [' ']
  lines (sorted.map fun (name, binding) => front ++ listed name binding.value?)

/-- Change how a variable is kept, and give it a value if there is one. -/
def mark (change : Binding → Binding) (argument : Text) : Act Unit := do
  let (name, value?) := assigned argument
  if ¬ isName name then Process.fail s!"{written name}: bad variable name"
  match value? with
  | some value => Process.assign name value
  | none => pure ()
  modify fun process =>
    process.bind name (change ((process.binding? name).getD { value? := none }))

/-- Change how variables are kept, or list those that are kept so. -/
def marking (verb : String) (change : Binding → Binding) (belongs : Binding → Bool) : Command :=
  fun arguments => do
    let (chosen, operands) ← choices "p" "" arguments
    if chosen.isEmpty && !operands.isEmpty then
      operands.forM (mark change)
      return {}
    else return { printed := listing (← get) (ascii verb) belongs }

/-- Share variables with programs that the script starts. -/
def exporting : Command :=
  marking "export" (fun binding => { binding with isExported := true }) (·.isExported)

def fixing : Command :=
  marking "readonly" (fun binding => { binding with isFixed := true }) (·.isFixed)

/-- Keep a variable to the innermost function. -/
def keepLocal (argument : Text) : Act Unit := do
  let (name, value?) := assigned argument
  if name = ['-'] then pure ()
  else
    Process.remember name
    match value? with
    | some value => Process.assign name value
    | none =>
      if ¬ isName name then Process.fail s!"{written name}: bad variable name"

/-- Keep variables to the innermost function. -/
def keeping : Command := fun arguments => do
  if (← get).scopes.isEmpty then Process.fail "not in a function"
  else
    arguments.forM keepLocal
    return {}

/-- Take variables or functions away. -/
def unsetting : Command := fun arguments => do
  let (chosen, operands) ← choices "vf" "" arguments
  if (chosen.getLast?.map Choice.letter) = some 'f' then
    modify fun process =>
      { process with functions := process.functions.filter (!operands.contains ·.1) }
  else operands.forM Process.unassign
  return {}

/-! ### Reading -/

/-- A line of input, and whether it has an end. Unless the line is `raw`, a backslash quotes the
next character and joins lines. -/
def inputLine (raw : Bool) : Nat → Bool → Act (List Fragment × Bool)
  | 0, _ => pure ([], false)
  | fuel + 1, quoted => do
    let process ← get
    match process.stream? Process.inputDescriptor with
    | none => return ([], false)
    | some stream =>
      let (system, octet?) := process.system.takeOctet stream
      set { process with system }
      match octet? with
      | none => return ([], false)
      | some octet =>
        if octet = '\x00' then inputLine raw fuel quoted
        else if quoted then
          let (rest, ends) ← inputLine raw fuel false
          if octet = '\n' then return (.edge false :: rest, ends)
          else return (.character octet true false :: .edge false :: rest, ends)
        else if octet = '\\' ∧ ¬ raw then inputLine raw fuel true
        else if octet = '\n' then return ([], true)
        else
          let (rest, ends) ← inputLine raw fuel false
          return (.character octet false true :: rest, ends)

/-- Give names fields, and nothing to names that are left. -/
def assignFields : List Text → List Text → Act Unit
  | [], _ => pure ()
  | name :: names, fields => do
    Process.assign name (fields.head?.getD [])
    assignFields names (fields.drop 1)

/-- Read a line of input into variables. -/
def reading : Command := fun arguments => do
  let (chosen, names) ← choices "r" "p" arguments
  if names.isEmpty then Process.fail "arg count"
  else
    let raw := chosen.any (·.letter == 'r')
    let process ← get
    let length := ((process.stream? Process.inputDescriptor).map process.system.remaining).getD 0
    let (fragments, ends) ← inputLine raw (length + 1) false
    let characters := ((← get).value? Process.separators).getD Fragment.blanks
    let fields := Fragment.fieldsUpTo names.length characters (.edge false :: fragments)
    assignFields names (fields.map Fragment.text)
    return { status := statusOf ends }

end Command

end AssetPipeline.Shell
