/-
Tools that run other programs.

Main statements: `Tool.env`, `Tool.xargs`, `Tool.timeout`, `Batch.split_flatten` (no argument is lost between the runs
of a program).
-/
import Graft.Shell.Signal
import Graft.Shell.Tool.Plain

namespace Graft.Shell.Tool

open Program

/-! ### Programs that are not there -/

/-- Runs a program; when it is not there, says so in words of the tool that runs it. -/
def launchOr (host : Host) (program : String) (before : Octets) (words : List Octets) : Act Nat := do
  let name := words.headD []
  match ← host.find name with
  | .ok _ => host.call words
  | .error (status, _) =>
    complain program (before ++ quoted name ++
      (if status = 126 then ": Permission denied" else ": No such file or directory").toList)
    return status

/-- Runs the program that stands behind options. -/
def runOperands (host : Host) (program : String) (operands : List Octets) : Act Nat :=
  launchOr host program "failed to run command ".toList operands

/-! ### Environments -/

def envOptions : OptionTable := .ofString "i0u:C:S:v"
  [("ignore-environment", 'i'), ("null", '0'), ("unset", 'u'), ("chdir", 'C'), ("split-string", 'S')] false

def isAssignment (w : Octets) : Bool := w.contains '='

/-- Writes the exported variables. -/
def writeEnvironment (finish : Char) : Act Unit := do
  for (name, b) in (← Act.env).bindings do
    match b.exported, b.value with
    | true, some v => Act.write 1 (name ++ ['='] ++ v ++ [finish])
    | _, _ => pure ()

def env : Program := fun host => withOptions "env" 125 envOptions fun o operands => do
  let operands := match o.value? 'S' with
    | some text => Octets.fields Octets.isSpace text ++ operands
    | none => operands
  let clears := o.has 'i' || operands.head? = some ['-']
  let operands := if operands.head? = some ['-'] then operands.drop 1 else operands
  if clears then Act.modifyEnv fun e => { e with bindings := [] }
  for name in o.values 'u' do Act.setBinding name none
  let assignments := operands.takeWhile isAssignment
  for a in assignments do
    match Text.cut? '=' a with
    | some (name, value) => Act.setBinding name (some ⟨some value, true, false⟩)
    | none => pure ()
  let words := operands.drop assignments.length
  match o.value? 'C' with
  | some dir =>
    match (← get).locate dir with
    | .ok p => Act.modifyEnv fun e => { e with dir := p }
    | .error e =>
      complain "env" ("cannot change directory to ".toList ++ quoted dir ++ [':', ' '] ++ e.reason.toList)
      return 125
  | none => pure ()
  if words.isEmpty then
    writeEnvironment (if o.has '0' then Char.ofNat 0 else '\n')
    return 0
  else launchOr host "env" [] words

def printenv : Program := fun _ => withOptions "printenv" 2 (.ofString "0" [("null", '0')] false) fun o operands => do
  let finish := if o.has '0' then Char.ofNat 0 else '\n'
  if operands.isEmpty then
    writeEnvironment finish
    return 0
  else eachOperand operands fun name => do
    match ← Act.binding? name with
    | some ⟨some v, true, _⟩ =>
      Act.write 1 (v ++ [finish])
      return true
    | _ => return false

/-! ### Limits -/

def timeoutOptions : OptionTable := .ofString "k:s:vfp"
  [("kill-after", 'k'), ("signal", 's'), ("verbose", 'v'), ("foreground", 'f'), ("preserve-status", 'p')] false

/-- The seconds that a command only waits. -/
def waits (words : List Octets) : Nat :=
  match words with
  | name :: durations => if name = "sleep".toList then (durations.filterMap Duration.seconds?).foldl (· + ·) 0 else 0
  | [] => 0

def timeout : Program := fun host => withOptions "timeout" 125 timeoutOptions fun o operands => do
  match operands with
  | [] | [_] =>
    Act.write 2 "Try 'timeout --help' for more information.\n".toList
    return 125
  | duration :: words =>
    match Duration.seconds? duration with
    | none => misuse "timeout" 125 ("invalid time interval ".toList ++ quoted duration)
    | some limit =>
      let n ← runOperands host "timeout" words
      return if n = 0 && limit > 0 && waits words > limit then (if o.has 'p' then 143 else 124) else n

def nohup : Program := fun host => withOptions "nohup" 125 (.ofString "" [] false) fun _ operands => do
  if operands.isEmpty then misuse "nohup" 125 "missing operand".toList
  else runOperands host "nohup" operands

def nice : Program := fun host => withOptions "nice" 125 (.ofString "n:" [("adjustment", 'n')] false) fun o operands => do
  match o.value? 'n', operands with
  | some a, operands =>
    if (Octets.int? a).isNone then
      complain "nice" ("invalid adjustment ".toList ++ quoted a)
      return 125
    else if operands.isEmpty then misuse "nice" 125 "a command must be given with an adjustment".toList
    else launchOr host "nice" [] operands
  | none, [] =>
    writeLine ['0']
    return 0
  | none, operands => launchOr host "nice" [] operands

/-! ### Arguments from the input -/

namespace Batch

/-- Items in groups of some size, for which the bound lasts. -/
def split {α : Type} (size : Nat) : Nat → List α → List (List α)
  | 0, items => [items]
  | n + 1, items =>
    if items.length ≤ size || size = 0 then [items] else items.take size :: split size n (items.drop size)

/-- No item is lost. -/
theorem split_flatten {α : Type} (size n : Nat) (items : List α) : (split size n items).flatten = items := by
  induction n generalizing items with
  | zero => simp [split]
  | succ n ih =>
    simp only [split]
    split
    · simp
    · simp [ih]

/-- What is being read: an item so far, if one has begun, and the items of the line. -/
structure Reading where
  item : Option Octets := none
  line : List Octets := []
  lines : List (List Octets) := []

namespace Reading

def add (r : Reading) (c : Char) : Reading := { r with item := some (r.item.getD [] ++ [c]) }

def close (r : Reading) : Reading :=
  match r.item with
  | some i => { r with item := none, line := r.line ++ [i] }
  | none => r

/-- A line ends, unless a blank stands before its end. -/
def closeLine (r : Reading) (continues : Bool) : Reading :=
  let r := r.close
  if continues || r.line.isEmpty then r else { r with line := [], lines := r.lines ++ [r.line] }

end Reading

/-- The items of a text by lines.  Quotes and backslashes keep blanks together. -/
def quotedItems : Octets → Option Char → Bool → Reading → Except String Reading
  | [], none, _, r => .ok (r.closeLine false)
  | [], some q, _, _ =>
    .error (String.append (String.append "unmatched " (if q = '"' then "double" else "single"))
      " quote; by default quotes are special to xargs unless you use the -0 option")
  | '\n' :: _, some q, b, r => quotedItems [] (some q) b r
  | c :: t, some q, _, r => if c = q then quotedItems t none false r else quotedItems t (some q) false (r.add c)
  | '\\' :: c :: t, none, _, r => quotedItems t none false (r.add c)
  | c :: t, none, blank, r =>
    if c = '"' || c = '\'' then quotedItems t (some c) false { r with item := some (r.item.getD []) }
    else if c = '\n' then quotedItems t none false (r.closeLine blank)
    else if c = ' ' || c = '\t' then quotedItems t none true r.close
    else quotedItems t none false (r.add c)

/-- The items of a text by lines, by the options of the tool. -/
def items (o : Options) (text : Octets) : Except String (List (List Octets)) :=
  let by_ (c : Char) : List (List Octets) :=
    let parts := Text.splitOn c text
    (if parts.getLast? = some [] then parts.dropLast else parts).map fun p => [p]
  match o.value? 'd' with
  | some ['\\', 'n'] => .ok (by_ '\n')
  | some ['\\', '0'] => .ok (by_ (Char.ofNat 0))
  | some ['\\', 't'] => .ok (by_ '\t')
  | some (c :: _) => .ok (by_ c)
  | _ =>
    if o.has '0' then .ok (by_ (Char.ofNat 0))
    else if o.has 'I' || o.has 'i' then
      .ok (((Octets.lines text).map fun l => l.dropWhile fun c => c == ' ' || c == '\t').filter (!·.isEmpty) |>.map
        fun l => [l])
    else (quotedItems text none false {}).map Reading.lines

end Batch

def xargsOptions : OptionTable := .ofString "0a:d:e::E:i::I:l::L:n:prs:txP:o"
  [("null", '0'), ("arg-file", 'a'), ("delimiter", 'd'), ("replace", 'i'), ("max-lines", 'l'), ("max-args", 'n'),
    ("no-run-if-empty", 'r'), ("verbose", 't'), ("max-procs", 'P'), ("max-chars", 's'), ("exit", 'x')] false

/-- The arguments of the runs of a program. -/
def batches (o : Options) (command : List Octets) (lines : List (List Octets)) : List (List Octets) :=
  let marker := (o.value? 'I').or ((o.value? 'i').map fun m => if m.isEmpty then ['\x7b', '\x7d'] else m)
  match marker with
  | some m => lines.flatten.map fun item => command.map (Text.replace m item)
  | none =>
    let number? (c : Char) : Option Nat := (o.value? c).map fun v => (Octets.nat? v).getD 1
    let groups := match number? 'n', (number? 'L').or (number? 'l') with
      | some n, _ => Batch.split n lines.flatten.length lines.flatten
      | none, some n => (Batch.split n lines.length lines).map List.flatten
      | none, none => [lines.flatten]
    let groups := if groups.flatten.isEmpty && o.has 'r' then [] else groups
    groups.map (command ++ ·)

/-- Runs a program with one batch of arguments after the other; stops when one ends with the status for that. -/
def runBatches (host : Host) (shown : Bool) : List (List Octets) → Nat → Act Nat
  | [], status => return status
  | words :: rest, status => do
    if shown then Act.write 2 (Text.join [' '] (words.map quotedIfNeeded) ++ ['\n'])
    let name := words.headD []
    match ← host.find name with
    | .error (code, _) =>
      complain "xargs" (name ++ (if code = 126 then ": Permission denied" else ": No such file or directory").toList)
      return code
    | .ok _ =>
      let r ← Act.caught (host.call words)
      match r with
      | .error j => throw j
      | .ok n =>
        if n = 255 then
          complain "xargs" (name ++ ": exited with status 255; aborting".toList)
          return 124
        else if n > 128 && (Signal.name? (n - 128)).isSome && n < 160 then
          complain "xargs" (name ++ ": terminated by signal ".toList ++ Text.ofNat (n - 128))
          return 125
        else runBatches host shown rest (if n = 0 then status else 123)

def xargs : Program := fun host => withOptions "xargs" 1 xargsOptions fun o operands => do
  let command := if operands.isEmpty then ["echo".toList] else operands
  let bad := o.given.find? fun g => (g.1 == 'n' || g.1 == 'L') && ((Octets.nat? g.2).getD 0) == 0
  match bad with
  | some (c, v) =>
    if (Octets.nat? v).isSome then
      complain "xargs" ("value ".toList ++ v ++ " for -".toList ++ [c] ++ " option should be >= 1".toList)
      return 1
    else misuse "xargs" 1 ("invalid number \"".toList ++ v ++ "\" for -".toList ++ [c] ++ " option".toList)
  | none =>
    let text ← match o.value? 'a' with
      | some file => Act.contents file
      | none => input ['-']
    match text with
    | .error e =>
      complain "xargs" ("Cannot open input file ".toList ++ quoted ((o.value? 'a').getD ['-']) ++ [':', ' '] ++
        e.reason.toList)
      return 1
    | .ok text =>
      match Batch.items o text with
      | .error message =>
        complain "xargs" message.toList
        return 1
      | .ok lines =>
        let nothing ← Act.addStream .nothing
        Act.setDescriptor 0 (some nothing)
        runBatches host (o.has 't') (batches o command lines) 0

end Graft.Shell.Tool
