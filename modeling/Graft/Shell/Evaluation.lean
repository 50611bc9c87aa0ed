/-
Running scripts.

What a command does with the scripts inside of it is a matter of `execute`, which runs them by a function that is an
argument; `run` gives it, down to a depth.  A shell of its own, as for brackets, pipes and other programs, has an
environment of its own, while files and streams are those of all.

Main statements: `Evaluation.execute`, `Evaluation.run`, `Evaluation.inShell`.
-/
import Graft.Shell.Builtin
import Graft.Shell.Expansion
import Graft.Shell.Script.Reader

namespace Graft.Shell.Evaluation

/-- Runs a script.  A failure that is `tested` does not end a shell that ends on failures. -/
abbrev Runner := Bool → Script → Act Unit

variable (again : Runner)

def status : Act Nat := do return (← Act.env).status

/-! ### Texts of scripts -/

/-- Runs a text line by line, for which the bound lasts. -/
def interpretLines (before : Octets) : Nat → Source → Act Unit
  | 0, _ => return
  | n + 1, source => do
    match source.nextLine? with
    | .error e =>
      Act.modifyEnv fun env => { env with line := e.line }
      Act.fail (before ++ e.message.toList)
    | .ok none => return
    | .ok (some (script, rest)) =>
      if !(← Act.hasFlag 'n') then again false script
      interpretLines before n rest

/-- Runs a text in the present shell. -/
def interpret (before text : Octets) : Act Unit :=
  interpretLines again before (text.length + 2) (.ofOctets text 1)

/-! ### Shells of their own -/

/-- Runs the trap for the end of a shell. -/
def runExitTrap : Act Unit := do
  let e ← Act.env
  match e.traps.find? (·.1 == "EXIT".toList) with
  | none => return
  | some (_, action) =>
    Act.modifyEnv fun e => { e with traps := e.traps.filter (·.1 != "EXIT".toList) }
    match ← Act.caught (interpret again [] action) with
    | .error (.killed p s) => throw (.killed p s)
    | .error .exit | .error .failure => return
    | _ => Act.setStatus e.status

/-- Runs an action to the end of its shell, and tells the status. -/
def toEnd (a : Act Unit) : Act Nat := do
  match ← Act.caught a with
  | .error (.killed p s) => throw (.killed p s)
  | _ =>
    runExitTrap again
    status

/-- Runs an action in a shell that is a copy of the present one. -/
def inCopy (a : Act Unit) : Act Nat := do
  let r ← Act.inOwn do
    Act.modifyEnv fun e => { e with traps := e.traps.filter (·.2.isEmpty) }
    toEnd again a
  match r with
  | .ok n => return n
  | .error j => throw j

/-- Tells that a signal has ended a process. -/
def reportSignal (signal : Nat) : Act Unit := do
  match Signal.description? signal with
  | some d => Act.write 2 (d.toList ++ ['\n'])
  | none => return

/-- Runs an action in a new shell, which knows only the exported variables. -/
def inShell (name : Octets) (arguments : List Octets) (flags : Octets) (a : Act Unit) : Act Nat := do
  modify fun s => { s with processes := s.processes + 1 }
  let own := (← get).processes
  let r ← Act.inOwn do
    Act.modifyEnv fun e =>
      let exported := e.bindings.filter fun b => b.2.exported
      { e with
        bindings := exported.map (fun (n, b) => (n, { b with readonly := false })) ++
          [("IFS".toList, ⟨some [' ', '\t', '\n'], false, false⟩), ("OPTIND".toList, ⟨some ['1'], false, false⟩)]
        shadowed := [], functions := [], name := name, arguments := arguments, flags := flags, pending := []
        traps := e.traps.filter (·.2.isEmpty), process := own, lastProcess := none, ended := [], loops := 0
        functionLine := none, line := 0, status := 0, outputStatus := 0, optionOffset := 0 }
    toEnd again a
  match r with
  | .ok n => return n
  | .error (.killed p s) =>
    if p = own then
      reportSignal s
      return 128 + s
    else throw (.killed p s)
  | .error _ => return 2

/-! ### Programs -/

/-- The options of a shell that is called, for which the bound lasts: letters that are on, whether a script is an
argument or the standard input, and the words behind. -/
def shellOptions : Nat → List Octets → Octets × Bool × Bool × List Octets
  | 0, words => ([], false, false, words)
  | _ + 1, ['-', '-'] :: words => ([], false, false, words)
  | n + 1, (sign :: c :: cs) :: words =>
    if sign = '-' || sign = '+' then
      let letters := c :: cs
      let words := if letters.contains 'o' then words.drop 1 else words
      let (flags, isText, isInput, rest) := shellOptions n words
      ((if sign = '-' then letters else []) ++ flags, isText || letters.contains 'c', isInput || letters.contains 's', rest)
    else ([], false, false, (sign :: c :: cs) :: words)
  | _ + 1, words => ([], false, false, words)

/-- Runs a shell with arguments. -/
def callShell (name : Octets) (arguments : List Octets) : Act Nat := do
  let complain (message : Octets) : Act Nat := do
    Act.write 2 (name ++ ": 0: ".toList ++ message ++ ['\n'])
    return 2
  let (letters, isText, isInput, words) := shellOptions (arguments.length + 1) arguments
  match letters.find? fun c => !(Builtin.flagOrder.contains c || c == 'c' || c == 'o' || c == 'l') with
  | some c => complain ("Illegal option -".toList ++ [c])
  | none =>
    let flags := Builtin.flagOrder.filter fun c => letters.contains c && c != 's'
    if isText then
      match words with
      | [] => complain "-c requires an argument".toList
      | text :: [] => inShell again name [] flags (interpret again [] text)
      | text :: zero :: rest => inShell again zero rest flags (interpret again [] text)
    else
      match isInput, words with
      | false, file :: rest =>
        match ← Act.contents file with
        | .ok text => inShell again file rest flags (interpret again [] text)
        | .error .isDirectory => return 0
        | .error _ => complain ("cannot open ".toList ++ file ++ ": No such file".toList)
      | _, rest =>
        let text := (← Act.readAll? 0).getD []
        inShell again name rest flags (interpret again [] text)

/-- Runs an action of a program that is no shell. -/
def asProcess (a : Act Nat) : Act Nat := do
  match ← Act.inOwn a with
  | .ok n => return n
  | .error (.killed p s) => throw (.killed p s)
  | .error _ => return 1

/-- Runs an executable.  A file that names its interpreter is run by it, which the bound lets happen so often. -/
def launch (host : Host) : Nat → Executable → List Octets → Act Nat
  | 0, _, _ => return 126
  | n + 1, exe, words => do
    let name := words.headD []
    let arguments := words.drop 1
    match exe with
    | .tool p => asProcess (p host arguments)
    | .shell => callShell again name arguments
    | .script file text => inShell again file arguments [] (interpret again [] text)
    | .interpreted program file =>
      match Lookup.find (← get) Lookup.defaultPath (program.headD []) with
      | .ok (_, exe) => launch host n exe (program ++ file :: arguments)
      | .error _ => return 127

/-- The host of programs, for which the bound lasts: a program may run others through it. -/
def hostFor : Nat → Host
  | 0 => ⟨fun _ => return .error (126, "Permission denied"), fun _ => return 126, fun _ _ => return⟩
  | n + 1 =>
    ⟨fun name => do return (Lookup.find (← get) Lookup.defaultPath name).map Prod.fst,
    fun words => do
      match Lookup.find (← get) Lookup.defaultPath (words.headD []) with
      | .ok (_, exe) => launch again (hostFor n) 8 exe words
      | .error (status, _) => return status,
    interpret again⟩

def host : Host := hostFor again 64

/-- Runs a program that is looked for, with a message when there is none. -/
def callProgram (words : List Octets) : Act Nat := do
  let name := words.headD []
  match Lookup.find (← get) [] name with
  | .ok (_, exe) => launch again (host again) 8 exe words
  | .error (status, reason) =>
    Act.report (name ++ [':', ' '] ++ reason.toList)
    return status

/-! ### Words -/

/-- The output of a script. -/
def outputOf (body : Script) : Act Octets := do
  let pipe ← Act.addStream (.pipe [])
  let n ← inCopy again do
    Act.setDescriptor 1 (some pipe)
    again false body
  Act.modifyEnv fun e => { e with outputStatus := n }
  Act.remaining pipe

/-- The arguments that words become.  For a command that sets variables, words that assign are not parted. -/
def arguments (words : List Word) : Act (List Octets) := do
  let mut result : List Octets := []
  for w in words do
    let command := (result.dropWhile fun a => a = "command".toList).headD []
    let sets := ["export", "readonly", "local"].any fun n => n.toList == command
    match (if sets then w.assignment? else none) with
    | some (name, value) => result := result ++ [name ++ '=' :: (← Expansion.assigned (outputOf again) value)]
    | none => result := result ++ (← Expansion.fields (outputOf again) w)
  return result

/-! ### Redirections -/

/-- A redirection with its target expanded. -/
abbrev Target := Nat × Opening × Octets

def targets (rs : List Redirection) : Act (List Target) :=
  rs.mapM fun
    | .redirection d o w => do return (d, o, ← Expansion.text (outputOf again) w)

/-- Why a file was not opened. -/
def refusal (o : Opening) (name : Octets) (e : IoError) : Octets :=
  let missing := e = .notFound || e = .notDirectory
  match o with
  | .read => "cannot open ".toList ++ name ++ [':', ' '] ++
      (if missing then "No such file" else e.reason).toList
  | _ => "cannot create ".toList ++ name ++ [':', ' '] ++
      (if missing then "Directory nonexistent" else e.reason).toList

/-- Opens one target; the value tells whether that went well. -/
def openTarget : Target → Act Bool
  | (d, .document, text) => do
    Act.setDescriptor d (some (← Act.addStream (.pipe text)))
    return true
  | (d, .duplicate, text) => do
    if text = ['-'] then
      Act.setDescriptor d none
      return true
    match Octets.nat? text with
    | none => Act.fail "Syntax error: Bad fd number".toList
    | some n =>
      match ← Act.stream? n with
      | some stream =>
        Act.setDescriptor d (some stream)
        return true
      | none =>
        Act.report (text ++ ": Bad file descriptor".toList)
        return false
  | (d, o, name) => do
    match ← Act.openName o (← Act.hasFlag 'C') name with
    | .ok stream =>
      Act.setDescriptor d (some stream)
      return true
    | .error e =>
      Act.report (refusal o name e)
      return false

/-- Opens targets up to one that fails. -/
def openAll : List Target → Act Bool
  | [] => return true
  | t :: ts => do if ← openTarget t then openAll ts else return false

/-- Lets descriptors lead where they led before. -/
def restore (before : List (Nat × Nat)) (ts : List Target) : Act Unit := do
  for (d, _) in ts do
    Act.setDescriptor d ((before.find? (·.1 == d)).map Prod.snd)

/-- Runs an action with targets open.  If one cannot be opened, the status is two. -/
def redirected (ts : List Target) (a : Act Unit) (otherwise : Act Unit) : Act Unit := do
  let before := (← Act.env).descriptors
  if ← openAll ts then
    let r ← Act.caught a
    restore before ts
    match r with
    | .ok () => return
    | .error j => throw j
  else
    Act.modifyEnv fun e => { e with descriptors := before }
    Act.setStatus 2
    otherwise

/-! ### Simple commands -/

/-- Gives variables values that stay. -/
def assignAll (assignments : List (Octets × Word)) : Act Unit :=
  assignments.forM fun (name, w) => do Act.assign name (← Expansion.assigned (outputOf again) w)

/-- Runs an action with variables that have values only for it, and that programs see. -/
def withAssignments (assignments : List (Octets × Word)) (a : Act Unit) : Act Unit := do
  let old ← assignments.mapM fun (name, _) => do return (name, ← Act.binding? name)
  for (name, w) in assignments do
    Act.assign name (← Expansion.assigned (outputOf again) w)
    let b ← Act.binding? name
    Act.setBinding name (b.map fun b => { b with exported := true })
  let r ← Act.caught a
  for (name, b) in old do Act.setBinding name b
  match r with
  | .ok () => return
  | .error j => throw j

/-- Runs a command of the shell.  An error in it ends the shell only if it is special. -/
def callBuiltin (isSpecial : Bool) (p : Program) (words : List Octets) : Act Unit := do
  match ← Act.caught (p (host again) (words.drop 1)) with
  | .ok n => Act.setStatus n
  | .error .failure => if isSpecial then throw .failure else Act.setStatus 2
  | .error j => throw j

/-- Runs a function with arguments. -/
def callFunction (tested : Bool) (f : Function) (words : List Octets) : Act Unit := do
  let e ← Act.env
  Act.modifyEnv fun e =>
    { e with arguments := words.drop 1, loops := 0, functionLine := some f.line, shadowed := [] }
  let r ← Act.caught (again tested f.body)
  for (name, b) in (← Act.env).shadowed do Act.setBinding name b
  Act.modifyEnv fun now =>
    { now with
      arguments := e.arguments, loops := e.loops, functionLine := e.functionLine, shadowed := e.shadowed }
  match r with
  | .ok () | .error .back => return
  | .error j => throw j

/-- Puts a program in place of the shell. -/
def callExec (words : List Octets) : Act Unit := do
  let words := if words.head? = some ['-', '-'] then words.drop 1 else words
  if words.isEmpty then Act.setStatus 0
  else
    let name := words.headD []
    match Lookup.find (← get) [] name with
    | .ok (_, exe) => Act.setStatus (← launch again (host again) 8 exe words)
    | .error (status, reason) =>
      Builtin.warn "exec" (name ++ [':', ' '] ++ reason.toList)
      Act.setStatus status
    Act.modifyEnv fun e => { e with traps := [] }
    throw .exit

/-- Runs a command that is no function and whose errors do not end the shell. -/
def callCommand (words : List Octets) : Act Unit := do
  let (letters, rest) ← Builtin.options "command" "pvV" words
  if letters.contains 'v' || letters.contains 'V' then
    Act.setStatus (← Builtin.commandNames (letters.contains 'V') rest)
  else match rest with
    | [] => Act.setStatus 0
    | name :: _ =>
      match Builtin.find? name with
      | some p => callBuiltin again false p rest
      | none => Act.setStatus (← callProgram again rest)

/-- Runs a command with its arguments. -/
def call (tested : Bool) (words : List Octets) : Act Unit := do
  let name := words.headD []
  let special := Builtin.isSpecial name
  match (← Act.env).functions.find? fun f => !special && f.1 == name with
  | some (_, f) => callFunction again tested f words
  | none =>
    if name = "exec".toList then callExec again (words.drop 1)
    else if name = "command".toList then callCommand again (words.drop 1)
    else match Builtin.find? name with
      | some p => callBuiltin again special p words
      | none => Act.setStatus (← callProgram again words)

/-- Shows a command before it runs. -/
def trace (assignments : List (Octets × Word)) (words : List Octets) : Act Unit := do
  if ← Act.hasFlag 'x' then
    let shown ← assignments.mapM fun (name, w) => do
      return name ++ '=' :: (← Expansion.assigned (outputOf again) w)
    Act.write 2 ("+ ".toList ++ Text.join [' '] (shown ++ words) ++ ['\n'])

/-- Runs the traps of signals that have come in. -/
def runPending : Act Unit := do
  let e ← Act.env
  if e.pending.isEmpty then return
  Act.modifyEnv fun e => { e with pending := [] }
  for action in e.pending do interpret again [] action
  Act.setStatus e.status

/-- The line of a command, which in a function counts from its first line. -/
def setLine (line : Nat) : Act Unit := Act.modifyEnv fun e =>
  { e with line := match e.functionLine with
    | some first => line - (first - 1)
    | none => line }

/-- Ends a shell that ends on failures, after one that is not tested. -/
def checkFailure (tested : Bool) : Act Unit := do
  if !tested && (← status) ≠ 0 && (← Act.hasFlag 'e') then throw .exit

def simple (tested : Bool) (line : Nat) (assignments : List (Octets × Word)) (words : List Word)
    (rs : List Redirection) : Act Unit := do
  setLine line
  Act.modifyEnv fun e => { e with outputStatus := 0 }
  let ws ← arguments again words
  let ts ← targets again rs
  let name := ws.headD []
  let special := Builtin.isSpecial name
  let body : Act Unit := do
    trace again assignments ws
    if ws.isEmpty then
      assignAll again assignments
      Act.setStatus (← Act.env).outputStatus
    else if special then
      assignAll again assignments
      call again tested ws
    else withAssignments again assignments (call again tested ws)
  let refused : Act Unit := if special then throw .failure else return
  if name = "exec".toList && ws.length = 1 then
    -- The files stay open.
    if ← openAll ts then body
    else
      Act.setStatus 2
      refused
  else redirected ts body refused
  runPending again
  checkFailure tested

/-! ### Loops -/

/-- How often a loop runs at most. -/
def maxRounds : Nat := 1000000

/-- Runs an action within a loop; the value tells whether the loop goes on. -/
def inLoop (a : Act Unit) : Act Bool := do
  match ← Act.caught a with
  | .ok () => return true
  | .error (.again n) => if n ≤ 1 then return true else throw (.again (n - 1))
  | .error (.leave n) => if n ≤ 1 then return false else throw (.leave (n - 1))
  | .error j => throw j

/-- Runs an action that has one more loop around it. -/
def counted (a : Act Unit) : Act Unit := do
  let loops := (← Act.env).loops
  Act.modifyEnv fun e => { e with loops := loops + 1 }
  let r ← Act.caught a
  Act.modifyEnv fun e => { e with loops := loops }
  match r with
  | .ok () => return
  | .error j => throw j

/-- Runs a body as long as a condition says, for which the bound lasts.  The status is that of the last round. -/
def rounds (tested until_ : Bool) (condition body : Script) : Nat → Nat → Act Unit
  | 0, last => Act.setStatus last
  | n + 1, last => do
    if !(← inLoop (again true condition)) then return
    if ((← status) = 0) = until_ then Act.setStatus last
    else if ← inLoop (again tested body) then rounds tested until_ condition body n (← status)

/-- Runs a body for each of some values. -/
def eachOf (tested : Bool) (name : Octets) (body : Script) : List Octets → Act Unit
  | [] => return
  | v :: vs => do
    Act.assign name v
    if ← inLoop (again tested body) then eachOf tested name body vs

/-! ### Pipes -/

/-- Runs scripts each on what the one before has written. -/
def piped (input : Option Nat) : List Script → Act Unit
  | [] => return
  | [s] => do
    Act.setStatus (← inCopy again do
      if input.isSome then Act.setDescriptor 0 input
      again false s)
  | s :: ss => do
    let pipe ← Act.addStream (.pipe [])
    let _ ← inCopy again do
      if input.isSome then Act.setDescriptor 0 input
      Act.setDescriptor 1 (some pipe)
      again false s
    piped (some pipe) ss

/-- Runs a script to its end as if in the background. -/
def inBackground (body : Script) : Act Unit := do
  let nothing ← Act.addStream .nothing
  modify fun s => { s with processes := s.processes + 1 }
  let own := (← get).processes
  let r ← Act.caught (inCopy again do
    Act.setDescriptor 0 (some nothing)
    again false body)
  let n := match r with
    | .ok n => n
    | .error (.killed _ s) => 128 + s
    | .error _ => 2
  Act.modifyEnv fun e => { e with lastProcess := some own, ended := (own, n) :: e.ended }
  Act.setStatus 0

/-! ### Scripts -/

/-- The first body of which a pattern matches. -/
def selected (text : Octets) : List (List Word × Script) → Act Script
  | [] => return .empty
  | (patterns, body) :: cases => do
    for w in patterns do
      if Wildcard.fits (← Expansion.pattern (outputOf again) w) text then return body
    selected text cases

/-- Runs a script, and the scripts in it through `again`. -/
def execute (tested : Bool) : Script → Act Unit
  | .empty => return
  | .simple line assignments words rs => simple again tested line assignments words rs
  | .sequence parts => parts.forM (again tested)
  | .both a b => do
    again true a
    if (← status) = 0 then again tested b
  | .either a b => do
    again true a
    if (← status) ≠ 0 then again tested b
  | .negated body => do
    again true body
    Act.setStatus (if (← status) = 0 then 1 else 0)
  | .pipeline parts => do
    piped again none parts
    checkFailure tested
  | .background body => inBackground again body
  | .subshell line body rs => do
    setLine line
    let ts ← targets again rs
    Act.setStatus (← inCopy again do redirected ts (again tested body) (throw .exit))
    checkFailure tested
  | .redirected line body rs => do
    setLine line
    redirected (← targets again rs) (again tested body) (return)
  | .choice condition yes no => do
    again true condition
    if (← status) = 0 then again tested yes
    else
      Act.setStatus 0
      again tested no
  | .loop until_ condition body => counted (rounds again tested until_ condition body maxRounds 0)
  | .each line name words body => do
    setLine line
    let values ← words.flatMapM (Expansion.fields (outputOf again))
    let before ← status
    counted (eachOf again tested name body values)
    if values.isEmpty && before ≠ 0 then Act.setStatus 0
  | .select line word cases => do
    setLine line
    let body ← selected again (← Expansion.text (outputOf again) word) cases
    match body with
    | .empty => Act.setStatus 0
    | body => again tested body
  | .define line name body => do
    Act.modifyEnv fun e =>
      { e with functions := (name, ⟨line, body⟩) :: e.functions.filter (·.1 != name) }
    Act.setStatus 0

/-- Runs a script that is nested at most so deep.  A shell that goes deeper runs out of memory. -/
def run : Nat → Runner
  | 0, _, _ => do throw (.killed (← Act.env).process 11)
  | n + 1, tested, script => execute (run n) tested script

/-- How deep scripts are nested at most. -/
def maxDepth : Nat := 2000

end Graft.Shell.Evaluation
