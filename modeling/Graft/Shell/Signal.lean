/-
Signals and the conditions on which traps run.

Main statements: `Signal.name?`, `Signal.ofName?`, `Signal.ofName?_name?` (names and numbers agree), `Signal.condition?`.
-/
import Graft.Shell.Octets

namespace Graft.Shell.Signal

/-- The names of the signals, from number one on. -/
def names : List String :=
  ["HUP", "INT", "QUIT", "ILL", "TRAP", "ABRT", "BUS", "FPE", "KILL", "USR1", "SEGV", "USR2", "PIPE", "ALRM", "TERM",
    "STKFLT", "CHLD", "CONT", "STOP", "TSTP", "TTIN", "TTOU", "URG", "XCPU", "XFSZ", "VTALRM", "PROF", "WINCH", "POLL",
    "PWR", "SYS"]

def name? (n : Nat) : Option String := if n = 0 then none else names[n - 1]?

/-- The number of a signal by its name, with or without `SIG` in front, in letters of either case. -/
def ofName? (word : Octets) : Option Nat :=
  let word := word.map Char.toUpper
  let word := (Text.strip? "SIG".toList word).getD word
  (names.findIdx? fun n => n.toList == word).map (· + 1)

theorem ofName?_name? : ∀ n ∈ List.range 32, (name? n).all fun s => ofName? s.toList == some n := by decide +kernel

/-- The number of a signal by its name or by its number. -/
def ofWord? (word : Octets) : Option Nat :=
  match Octets.nat? word with
  | some n => if n < 65 then some n else none
  | none => ofName? word

/-- The condition that a word names: the end of the shell, or a signal. -/
def condition? (word : Octets) : Option Octets :=
  match Octets.nat? word with
  | some 0 => some "EXIT".toList
  | some n => (name? n).map String.toList
  | none =>
    if word.map Char.toUpper = "EXIT".toList then some "EXIT".toList
    else ((ofName? word).bind name?).map String.toList

/-- A signal that does nothing to a process that does not expect it. -/
def isHarmless (n : Nat) : Bool := n == 0 || n == 17 || n == 18 || n == 23 || n == 28

/-- What a shell says of a process that a signal has ended. -/
def description? (n : Nat) : Option String :=
  match n with
  | 1 => some "Hangup"
  | 3 => some "Quit"
  | 4 => some "Illegal instruction"
  | 5 => some "Trace/breakpoint trap"
  | 6 => some "Aborted"
  | 7 => some "Bus error"
  | 8 => some "Floating point exception"
  | 9 => some "Killed"
  | 10 => some "User defined signal 1"
  | 11 => some "Segmentation fault"
  | 12 => some "User defined signal 2"
  | 14 => some "Alarm clock"
  | 15 => some "Terminated"
  | _ => none

end Graft.Shell.Signal
