/-
Tools that write a text, or have nothing but a status.

Main statements: `Tool.echo`, `Tool.printf`, `Tool.test`, `Tool.yes`, `Tool.sleep`, `Duration.seconds?`.
-/
import Graft.Shell.Condition
import Graft.Shell.Printing
import Graft.Shell.Program

namespace Graft.Shell.Tool

open Program

/-! ### Texts -/

/-- The options of `echo` in front of its words: whether the line end is left out, and whether escapes are replaced. -/
def echoOptions : List Octets → Bool × Bool × List Octets
  | [] => (false, false, [])
  | w :: rest =>
    match w with
    | '-' :: c :: cs =>
      let letters := c :: cs
      if letters.all fun d => d == 'n' || d == 'e' || d == 'E' then
        let (silent, escapes, words) := echoOptions rest
        let last := (letters.filter (· != 'n')).getLast?
        (silent || letters.contains 'n', if escapes then true else last = some 'e', words)
      else (false, false, w :: rest)
    | _ => (false, false, w :: rest)

/-- A text with the codes in base sixteen and the escape character put in, for which the bound lasts. -/
def withHexCodes : Nat → Octets → Octets
  | 0, t => t
  | _ + 1, [] => []
  | n + 1, '\\' :: 'x' :: t =>
    let digits := (t.take 2).takeWhile fun d => Octets.digitValue d < 16
    if digits.isEmpty then '\\' :: 'x' :: withHexCodes n t
    else
      let c := Char.ofNat (Octets.natOf 16 digits)
      (if c = '\\' then ['\\', '\\'] else [c]) ++ withHexCodes n (t.drop digits.length)
  | n + 1, '\\' :: 'e' :: t => '\x1b' :: withHexCodes n t
  | n + 1, '\\' :: c :: t => '\\' :: c :: withHexCodes n t
  | n + 1, c :: t => c :: withHexCodes n t

def echo : Program := fun _ arguments => do
  let (silent, escapes, words) := echoOptions arguments
  let text := Text.join [' '] words
  let (o, complete) := if escapes then unescaped (withHexCodes (text.length + 1) text) else (text, true)
  Act.write 1 (if silent || !complete then o else o ++ ['\n'])
  return 0

def printf : Program := fun _ arguments => do
  match (if arguments.head? = some ['-', '-'] then arguments.drop 1 else arguments) with
  | [] => misuse "printf" 1 "missing operand".toList
  | format :: words =>
    let p := printed format words
    for w in p.warnings do complain "printf" w
    Act.write 1 p.out
    match p.error with
    | some e =>
      complain "printf" e
      return 1
    | none => return if p.warnings.isEmpty then 0 else 1

/-- The number of lines after which a reader is taken to have left. -/
def yesLines : Nat := 20000

def yes : Program := fun _ words => do
  let line := (if words.isEmpty then ['y'] else Text.join [' '] words) ++ ['\n']
  Act.write 1 (List.replicate yesLines line).flatten
  return 141

/-! ### States -/

def succeed : Program := fun _ _ => return 0

def refuse : Program := fun _ _ => return 1

def test (name : String) : Program := fun _ words => do
  match Condition.eval (← get) words with
  | .ok b => return if b then 0 else 1
  | .error e =>
    complain name e
    return 2

def bracket : Program := fun host words => do
  if words.getLast? = some [']'] then test "[" host words.dropLast
  else
    complain "[" "missing ']'".toList
    return 2

/-! ### Times -/

namespace Duration

/-- A time in seconds, with a unit behind the number; the fraction is dropped. -/
def seconds? (t : Octets) : Option Nat :=
  let (digits, places, rest) := Printed.fractionAt t
  let n := Octets.natOf 10 digits
  if digits.isEmpty then (if t = "infinity".toList || t = "inf".toList then some 1000000000 else none)
  else
    let unit : Option Nat := match rest with
      | [] | ['s'] => some 1
      | ['m'] => some 60
      | ['h'] => some 3600
      | ['d'] => some 86400
      | _ => none
    unit.map fun u => (n * u + Nat.pow 10 places - 1) / Nat.pow 10 places

theorem seconds?_minute : seconds? "2m".toList = some 120 := by decide +kernel

end Duration

/-- Time does not go on while scripts run; only the intervals are checked. -/
def sleep : Program := fun _ arguments => do
  if arguments.isEmpty then misuse "sleep" 1 "missing operand".toList
  else
    let bad := arguments.filter fun a => (Duration.seconds? a).isNone
    for a in bad.dropLast do complain "sleep" ("invalid time interval ".toList ++ quoted a)
    match bad.getLast? with
    | some a => misuse "sleep" 1 ("invalid time interval ".toList ++ quoted a)
    | none => return 0

def sync : Program := fun _ => withOptions "sync" 1 (.ofString "df" [] true) fun _ operands =>
  eachOperand operands fun name => do
    match (← get).entryAt? name with
    | .ok (some _) => return true
    | _ =>
      complain "sync" ("error opening ".toList ++ quoted name ++ ": No such file or directory".toList)
      return false

end Graft.Shell.Tool
