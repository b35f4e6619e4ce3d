/-
This file runs the statements of shell scripts. Under the option that asks for it the script ends
when a command fails, unless its failure is looked at: in a condition, behind a negation, or in
front of `&&` and `||`. Statements that functions and texts of commands lead to are run less
deeply, and the rounds of a loop are limited, so that each run comes to an end.
-/

import AssetPipeline.Shell.Simple

namespace AssetPipeline.Shell

namespace Process

/-- How many rounds a loop has at most. A loop that has more writes where nobody reads. -/
def roundLimit : Nat := 200000

/-- What a round of a loop came to. -/
inductive Round where
  | another
  | last

/-- Run a round of a loop; the loops around it may have to be left too. -/
def runRound (act : Act Unit) : Act Round := do
  match ← act.outcome with
  | .ok () | .error (.nextRound 0) | .error (.nextRound 1) => return .another
  | .error (.leaveLoops 0) | .error (.leaveLoops 1) => return .last
  | .error (.nextRound (count + 2)) => throw (.nextRound (count + 1))
  | .error (.leaveLoops (count + 2)) => throw (.leaveLoops (count + 1))
  | .error stop => throw stop

/-- Run an act inside one more loop. -/
def inLoop (act : Act Unit) : Act Unit := do
  let loops := (← get).loops
  modify fun process => { process with loops := loops + 1 }
  act.ensuring (modify fun process => { process with loops })

/-- Run rounds as long as the condition succeeds or, with `negative`, fails. `status` is that of
the round before. -/
def loopRounds (negative : Bool) (condition body : Act Unit) : Nat → Nat → Act Unit
  | 0, _ => throw (.killed none Signal.brokenPipe)
  | fuel + 1, status => do
    match ← condition.outcome with
    | .error stop =>
      match ← runRound (throw stop) with
      | .another => loopRounds negative condition body fuel status
      | .last => conclude status
    | .ok () =>
      if ((← get).status == 0) == negative then conclude status
      else
        match ← runRound body with
        | .another => loopRounds negative condition body fuel (← get).status
        | .last => pure ()

/-- Run a round for each value of a variable. -/
def eachRound (name : Text) (body : Act Unit) : List Text → Act Unit
  | [] => pure ()
  | value :: others => do
    assign name value
    match ← runRound body with
    | .another => eachRound name body others
    | .last => pure ()

/-- End the script if a command failed whose failure nobody looks at. -/
def check (sheltered : Bool) : Act Unit := do
  let process ← get
  if process.hasOption 'e' ∧ ¬ sheltered ∧ process.status ≠ 0 then throw .ended

/-- How much more signals may arrive while their scripts are run. -/
def arrivalLimit : Nat := 1000

def redirected (run : Runs) (line : Nat) (redirections : List Redirection) (act : Act Unit) :
    Act Unit := do
  modify fun process => { process with line }
  keepingDescriptors do
    if ← redirect (capture run) redirections then act else conclude troubled

/-- Run an act in a shell of its own, where redirections are made. -/
def inSubshell (run : Runs) (line : Nat) (redirections : List Redirection) (act : Act Unit) :
    Act Unit := do
  modify fun process => { process with line }
  let targets ← aimedAll (capture run) redirections
  conclude (← fork run do
    redirectAll (capture run) targets
    act)

/-- Run an act beside the script, which goes on with success. -/
def beside (run : Runs) (line : Nat) (redirections : List Redirection) (act : Act Unit) :
    Act Unit := do
  modify fun process => { process with line }
  let targets ← aimedAll (capture run) redirections
  let number := (← get).system.processes + 1
  modify fun process => { process with system := { process.system with processes := number } }
  let ending ← runApart run (← get).forked do
    aim inputDescriptor (some (← openStream .nowhere))
    redirectAll (capture run) targets
    act
  let status :=
    match ending with
    | .left status => status
    | .killed signal => statusOfSignal signal
  modify fun process => { process with companions := (number, status) :: process.companions }
  conclude 0

/-- Run two acts, the second of which reads what the first prints. -/
def piped (run : Runs) (first second : Act Unit) : Act Unit := do
  let pipe ← openStream (.pipe [])
  let _ ← fork run do
    aim outputDescriptor (some pipe)
    first
  let text := (← get).system.piped pipe
  conclude (← fork run do
    aim inputDescriptor (some (← openStream (.text text)))
    second)

def matchesAny (run : Runs) (text : Text) : List Word → Act Bool
  | [] => pure false
  | word :: others => do
    let pattern ← expandPattern (capture run) word
    if pattern.accepts text then return true else matchesAny run text others

def allFields (run : Runs) : List Word → Act (List Text)
  | [] => pure []
  | word :: others => do
    let own ← expandFields (capture run) word
    return own ++ (← allFields run others)

/-- Run a statement, where `run` runs what functions and texts of commands lead to. The text that
branches select by is given to them. -/
def step (run : Runs) (selected : Text) (sheltered : Bool) : Statement → Act Unit
  | .idle => conclude 0
  | .simple command => do
    simple run sheltered command
    runTraps run arrivalLimit
    check sheltered
  | .negated body => do
    step run selected true body
    conclude (Command.statusOf ((← get).status != 0))
  | .sequence first second => do
    step run selected sheltered first
    step run selected sheltered second
  | .both first second => do
    step run selected true first
    if (← get).status = 0 then step run selected sheltered second
  | .either first second => do
    step run selected true first
    if (← get).status ≠ 0 then step run selected sheltered second
  | .pipe first second => do
    piped run (step run selected sheltered first) (step run selected sheltered second)
    check sheltered
  | .background line body redirections =>
    beside run line redirections (step run selected false body)
  | .subshell line body redirections => do
    inSubshell run line redirections (step run selected sheltered body)
    check sheltered
  | .redirected line body redirections => do
    redirected run line redirections (step run selected sheltered body)
    check sheltered
  | .choice condition yes no => do
    step run selected true condition
    if (← get).status = 0 then step run selected sheltered yes
    else step run selected sheltered no
  | .loop negative condition body =>
    inLoop (loopRounds negative (step run selected true condition)
      (step run selected sheltered body) roundLimit 0)
  | .each line name words body => do
    modify fun process => { process with line }
    let values ← allFields run words
    if values.isEmpty then conclude 0
    else inLoop (eachRound name (step run selected sheltered body) values)
  | .select line word branches => do
    modify fun process => { process with line }
    let text ← expand (capture run) word
    step run text sheltered branches
  | .branch patterns body rest => do
    if ← matchesAny run selected patterns then step run selected sheltered body
    else step run selected sheltered rest
  | .define _ name body => do
    modify fun process => { process with functions := replace process.functions name body }
    conclude 0

/-- Run a statement, not too deeply, unless the script is only to be read. -/
def run : Nat → Runs
  | 0 => fun _ _ => throw (.killed none Signal.exhausted)
  | fuel + 1 => fun sheltered statement => do
    if ¬ (← get).hasOption 'n' then step (run fuel) [] sheltered statement

/-- How deeply statements are run at most. -/
def depthLimit : Nat := 3000

end Process

end AssetPipeline.Shell
