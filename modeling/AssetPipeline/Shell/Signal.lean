/-
This file holds the signals that processes send each other, by their numbers and names.
-/

import AssetPipeline.Shell.Number

namespace AssetPipeline.Shell

namespace Signal

/-- The names of the first signals. The number zero stands for the end of a script. -/
def firstNames : List String :=
  ["EXIT", "HUP", "INT", "QUIT", "ILL", "TRAP", "ABRT", "BUS", "FPE", "KILL", "USR1", "SEGV",
    "USR2", "PIPE", "ALRM", "TERM", "16", "CHLD", "CONT", "STOP", "TSTP", "TTIN", "TTOU", "URG",
    "XCPU", "XFSZ", "VTALRM", "PROF", "WINCH", "IO", "PWR", "SYS", "32", "33", "RTMIN"]

/-- The names of all signals, each at its number. -/
def names : List String :=
  firstNames ++ (List.range 15).map (fun step => s!"RTMIN+{step + 1}") ++
    (List.range 14).map (fun step => s!"RTMAX-{14 - step}") ++ ["RTMAX"]

/-- The signal that asks a process to end. -/
def terminate : Nat := 15

/-- The signal of a process that writes where nobody reads. -/
def brokenPipe : Nat := 13

/-- The signal of a process that has run out of memory or of time. -/
def exhausted : Nat := 9

/-- The signals that do not end a process, unless it says what to do. -/
def harmless : List Nat := [17, 18, 19, 20, 21, 22, 23, 28]

/-- The signals about which a process has no say. -/
def certain : List Nat := [9, 19]

/-- The number of a signal that is written by its name or its number. Below `least` names do not
count. -/
def ofText? (least : Nat) (text : Text) : Option Nat :=
  if !text.isEmpty && text.all Char.isDigit then
    let number := Numeral.ofDigits 10 text
    if number < names.length then some number else none
  else
    let wanted := text.map Char.toUpper
    let found := names.findIdx fun name => name.toList == wanted
    if found < names.length ∧ least ≤ found then some found else none

/-- What a shell says about a process that a signal has killed. -/
def obituary : Nat → Option String
  | 1 => some "Hangup"
  | 3 => some "Quit"
  | 4 => some "Illegal instruction"
  | 5 => some "Trace/breakpoint trap"
  | 6 => some "Aborted"
  | 7 => some "Bus error"
  | 8 => some "Floating point exception"
  | 9 => some "Killed"
  | 10 => some "User defined signal 1"
  | 11 => some "Segmentation fault"
  | 12 => some "User defined signal 2"
  | 14 => some "Alarm clock"
  | 15 => some "Terminated"
  | 16 => some "Stack fault"
  | 24 => some "CPU time limit exceeded"
  | 25 => some "File size limit exceeded"
  | 26 => some "Virtual timer expired"
  | 27 => some "Profiling timer expired"
  | 29 => some "I/O possible"
  | 30 => some "Power failure"
  | 31 => some "Bad system call"
  | _ => none

end Signal

end AssetPipeline.Shell
