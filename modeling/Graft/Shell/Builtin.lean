/-
The commands that a shell itself performs.

Most of them change the environment of the shell that runs them, which a program of its own could not.  An error in a
special one ends the shell.

Main statements: `Builtin.find?`, `Builtin.isSpecial`, `Builtin.meaning?` (what a name is).
-/
import Graft.Shell.Condition
import Graft.Shell.Lookup
import Graft.Shell.Printing
import Graft.Shell.Script.Source
import Graft.Shell.Signal

namespace Graft.Shell.Builtin

/-! ### Errors -/

/-- Ends a command, and a shell if the command is special, with a message. -/
def fail {α : Type} (command : String) (message : Octets) : Act α :=
  Act.fail (command.toList ++ [':', ' '] ++ message)

/-- A message that ends nothing. -/
def warn (command : String) (message : Octets) : Act Unit :=
  Act.report (command.toList ++ [':', ' '] ++ message)

/-- The number from zero on that a word is. -/
def number (command : String) (word : Octets) : Act Nat :=
  match Octets.int? word with
  | some (.ofNat n) => if n < 2147483648 then return n else fail command ("Illegal number: ".toList ++ word)
  | _ => fail command ("Illegal number: ".toList ++ word)

/-- The letters of the options in front of some words, and the words behind them. -/
def options (command : String) (allowed : String) : List Octets → Act (Octets × List Octets)
  | [] => return ([], [])
  | ['-', '-'] :: words => return ([], words)
  | ('-' :: c :: cs) :: words => do
    match (c :: cs).find? fun d => !allowed.toList.contains d with
    | some d => fail command ("Illegal option -".toList ++ [d])
    | none =>
      let (letters, rest) ← options command allowed words
      return (c :: cs ++ letters, rest)
  | words => return ([], words)

/-! ### Texts -/

def echo : Program := fun _ arguments => do
  let (silent, words) : Bool × List Octets := match arguments with
    | ['-', 'n'] :: rest => (true, rest)
    | words => (false, words)
  let (o, whole) := unescaped (Text.join [' '] words)
  Act.write 1 (if silent || !whole then o else o ++ ['\n'])
  return 0

def printf : Program := fun _ arguments => do
  let (_, words) ← options "printf" "" arguments
  match words with
  | [] => fail "printf" "usage: printf format [arg ...]".toList
  | format :: words =>
    let p := printed format words
    for w in p.warnings do warn "printf" w
    match p.error with
    | some e =>
      Act.write 1 p.out
      fail "printf" e
    | none =>
      Act.write 1 p.out
      return if p.warnings.isEmpty then 0 else 1

def test (name : String) : Program := fun _ words => do
  match Condition.eval (← get) words with
  | .ok b => return if b then 0 else 1
  | .error e => fail name e

def bracket : Program := fun host words =>
  if words.getLast? = some [']'] then test "[" host words.dropLast else fail "[" "missing ]".toList

/-! ### Reading -/

/-- The characters of a line, with a mark for those that a backslash precedes.  A backslash before the line feed goes
on with the next line. -/
def readLine (raw : Bool) : Nat → Act (List (Char × Bool) × Bool)
  | 0 => return ([], false)
  | n + 1 => do
    let line ← Act.readLine 0
    let closed := line.getLast? = some '\n'
    let rec marks : Octets → List (Char × Bool) × Bool
      | [] => ([], false)
      | ['\\'] => ([], true)
      | '\\' :: c :: t => let (ms, isOpen) := marks t; ((c, true) :: ms, isOpen)
      | c :: t => let (ms, isOpen) := marks t; ((c, false) :: ms, isOpen)
    let text := (Octets.chomp line).filter (· != Char.ofNat 0)
    if raw then return (text.map fun c => (c, false), closed)
    let (ms, isOpen) := marks text
    if isOpen && closed then
      let (rest, closed) ← readLine raw n
      return (ms ++ rest, closed)
    else return (ms, closed)

/-- Whether a marked character parts fields, as a blank or as a sign. -/
def isBlankIn (separators : Octets) (x : Char × Bool) : Bool :=
  !x.2 && separators.contains x.1 && (x.1 == ' ' || x.1 == '\t' || x.1 == '\n')

def isSeparator (separators : Octets) (x : Char × Bool) : Bool := !x.2 && separators.contains x.1

/-- The values of some variables: fields of a line, the last one with all that is left. -/
def shares (separators : Octets) : Nat → List (Char × Bool) → List Octets
  | 0, _ => []
  | 1, line =>
    let blank := isBlankIn separators
    let line := ((line.dropWhile blank).reverse.dropWhile blank).reverse
    let body := line.dropLast
    let line := if (line.getLast?).any (isSeparator separators) && !body.any (isSeparator separators) then body else line
    [line.map Prod.fst]
  | n + 1, line =>
    let blank := isBlankIn separators
    let line := line.dropWhile blank
    let field := line.takeWhile fun x => !isSeparator separators x
    let rest := (line.drop field.length).dropWhile blank
    let rest := match rest with
      | x :: t => if isSeparator separators x then t else rest
      | [] => []
    field.map Prod.fst :: shares separators n rest

def read : Program := fun _ arguments => do
  let (letters, names) ← options "read" "rp" arguments
  let names := if letters.contains 'p' then names.drop 1 else names
  if names.isEmpty then fail "read" "arg count".toList
  match names.find? fun n => !Octets.isName n with
  | some n => fail "read" (n ++ ": bad variable name".toList)
  | none =>
    let (line, closed) ← readLine (letters.contains 'r') 100000
    let separators := (← Act.lookup? "IFS".toList).getD [' ', '\t', '\n']
    for (name, value) in names.zip (shares separators names.length line) do
      Act.assign name value
    return if closed then 0 else 1

/-! ### Directories -/

def cd : Program := fun _ arguments => do
  let (_, words) ← options "cd" "LP" arguments
  let old ← Act.valueOf "PWD"
  let (target, isLoud) : Octets × Bool ← match words with
    | [] => pure (← Act.valueOf "HOME", false)
    | ['-'] :: _ => pure (← Act.valueOf "OLDPWD", true)
    | w :: _ => pure (w, false)
  let go (p : Path) : Act Nat := do
    Act.modifyEnv fun e => { e with dir := p }
    let now := fullName p
    Act.setBinding "OLDPWD".toList (some ⟨some old, false, false⟩)
    Act.setBinding "PWD".toList (some ⟨some now, true, false⟩)
    if isLoud then Program.writeLine now
    return 0
  if target.isEmpty then go (← Act.env).dir
  else
    let s ← get
    match s.locate target with
    | .ok p =>
      if s.tree.get? p matches some .directory then go p else fail "cd" ("can't cd to ".toList ++ target)
    | .error _ => fail "cd" ("can't cd to ".toList ++ target)

def pwd : Program := fun _ _ => do
  Program.writeLine (fullName (← Act.env).dir)
  return 0

/-! ### Variables -/

/-- A name and a value, if there is an equals sign between them. -/
def assignment (word : Octets) : Octets × Option Octets :=
  match Text.cut? '=' word with
  | some (name, value) => (name, some value)
  | none => (word, none)

/-- A text in single quotes. -/
def singleQuoted (o : Octets) : Octets := ['\''] ++ Text.replace ['\''] "'\"'\"'".toList o ++ ['\'']

/-- Changes bindings by words that may give them values, or lists those that have a mark. -/
def mark (command : String) (hasMark : Binding → Bool) (setMark : Binding → Binding) : Program := fun _ arguments => do
  let (_, words) ← options command "p" arguments
  if words.isEmpty then
    let marked := (← Act.env).bindings.filter fun b => hasMark b.2
    for (name, b) in sortBy (fun x y => Text.le x.1 y.1) marked do
      Program.writeLine (command.toList ++ [' '] ++ name ++ match b.value with
        | some v => '=' :: singleQuoted v
        | none => [])
  for w in words do
    let (name, value) := assignment w
    if !Octets.isName name then fail command (name ++ ": bad variable name".toList)
    let old ← Act.binding? name
    if value.isSome && old.any Binding.readonly then fail command (name ++ ": is read only".toList)
    let b := old.getD ⟨none, false, false⟩
    Act.setBinding name (some (setMark { b with value := value.or b.value }))
  return 0

def exportVariables : Program := mark "export" Binding.exported fun b => { b with exported := true }

def makeReadonly : Program := mark "readonly" Binding.readonly fun b => { b with readonly := true }

def unset : Program := fun _ arguments => do
  let (letters, words) ← options "unset" "fv" arguments
  for w in words do
    if letters.contains 'f' then
      Act.modifyEnv fun e => { e with functions := e.functions.filter (·.1 != w) }
    else
      if !Octets.isName w then fail "unset" (w ++ ": bad variable name".toList)
      match ← Act.binding? w with
      | some b =>
        if b.readonly then fail "unset" (w ++ ": is read only".toList)
        Act.setBinding w none
      | none => pure ()
  return 0

/-- Puts bindings of a function in place of those around it. -/
def localVariables : Program := fun _ words => do
  if (← Act.env).functionLine.isNone then fail "local" "not in a function".toList
  for w in words do
    let (name, value) := assignment w
    if !Octets.isName name then fail "local" (name ++ ": bad variable name".toList)
    let old ← Act.binding? name
    Act.modifyEnv fun e => { e with shadowed := (name, old) :: e.shadowed }
    match value with
    | some v => Act.assign name v
    | none => pure ()
  return 0

/-! ### Options and arguments -/

/-- The options of a shell that have names. -/
def flagNames : List (String × Char) :=
  [("errexit", 'e'), ("noglob", 'f'), ("ignoreeof", 'I'), ("interactive", 'i'), ("monitor", 'm'), ("noexec", 'n'),
    ("stdin", 's'), ("xtrace", 'x'), ("verbose", 'v'), ("vi", 'V'), ("emacs", 'E'), ("noclobber", 'C'),
    ("allexport", 'a'), ("notify", 'b'), ("nounset", 'u'), ("nolog", 'l'), ("debug", 'd')]

/-- Letters of flags in the order in which they are listed. -/
def flagOrder : Octets := flagNames.map Prod.snd

def setFlag (c : Char) (on : Bool) : Act Unit := Act.modifyEnv fun e =>
  { e with flags := flagOrder.filter fun d => if d = c then on else e.flags.contains d }

/-- Turns options on and off, for which the bound lasts; the words behind them, if there are any, are the arguments. -/
def setOptions (command : String) : Nat → List Octets → Act (Option (List Octets))
  | 0, _ => return none
  | _ + 1, [] => return none
  | _ + 1, ['-', '-'] :: words => return some words
  | _ + 1, ['-'] :: words => do
    setFlag 'x' false
    return if words.isEmpty then none else some words
  | n + 1, (sign :: letters) :: words => do
    if sign ≠ '-' && sign ≠ '+' then return some ((sign :: letters) :: words)
    let on := sign = '-'
    for c in letters do
      if c ≠ 'o' then
        if !flagOrder.contains c then fail command ("Illegal option ".toList ++ [sign, c])
        setFlag c on
    if letters.contains 'o' then
      match words with
      | [] =>
        if on then Program.writeLine "Current option settings".toList
        for (name, c) in flagNames do
          let isOn := (← Act.env).flags.contains c
          Program.writeLine (if on then Octets.padRight 16 name.toList ++ (if isOn then "on" else "off").toList
            else (if isOn then "set -o " else "set +o ").toList ++ name.toList)
        return none
      | name :: words =>
        match flagNames.find? fun f => f.1.toList == name with
        | some (_, c) =>
          setFlag c on
          setOptions command n words
        | none => fail command ("Illegal option ".toList ++ [sign] ++ "o ".toList ++ name)
    else setOptions command n words
  | _ + 1, [] :: words => return some ([] :: words)

def set : Program := fun _ words => do
  if words.isEmpty then
    for (name, b) in sortBy (fun x y => Text.le x.1 y.1) (← Act.env).bindings do
      match b.value with
      | some v => Program.writeLine (name ++ '=' :: singleQuoted v)
      | none => pure ()
  else match ← setOptions "set" (words.length + 1) words with
    | some arguments => Act.modifyEnv fun e => { e with arguments := arguments }
    | none => pure ()
  return 0

def shift : Program := fun _ words => do
  let n ← match words with
    | [] => pure 1
    | w :: _ => number "shift" w
  if n > (← Act.env).arguments.length then fail "shift" "can't shift that many".toList
  Act.modifyEnv fun e => { e with arguments := e.arguments.drop n }
  return 0

/-- One more option of the arguments. -/
def getopts : Program := fun _ words => do
  match words with
  | spec :: name :: rest =>
    let arguments ← if rest.isEmpty then pure (← Act.env).arguments else pure rest
    let index := ((Octets.nat? (← Act.valueOf "OPTIND")).getD 1)
    let offset := (← Act.env).optionOffset
    let (isQuiet, letters) : Bool × Octets := match spec with
      | ':' :: t => (true, t)
      | t => (false, t)
    let finish (status index offset : Nat) (value : Octets) (argument : Option Octets) : Act Nat := do
      Act.assign "OPTIND".toList (Text.ofNat index)
      Act.modifyEnv fun e => { e with optionOffset := offset }
      match argument with
      | some a => Act.assign "OPTARG".toList a
      | none => Act.setBinding "OPTARG".toList none
      Act.assign name value
      return status
    -- Within a word the index already leads to the next one.
    let position := if offset > 0 then index - 1 else index
    match arguments[position - 1]? with
    | some ('-' :: c :: cs) =>
      if offset = 0 && c = '-' && cs.isEmpty then finish 1 (index + 1) 0 ['?'] none
      else
        let rest := (c :: cs).drop offset
        let letter := rest.head?.getD '?'
        let behind := rest.drop 1
        let next := if behind.isEmpty then 0 else offset + 1
        match letters.dropWhile (· ≠ letter) with
        | _ :: ':' :: _ =>
          if !behind.isEmpty then finish 0 (position + 1) 0 [letter] (some behind)
          else match arguments[position]? with
            | some a => finish 0 (position + 2) 0 [letter] (some a)
            | none =>
              if isQuiet then finish 0 (position + 1) 0 [':'] (some [letter])
              else
                Act.write 2 ("No arg for -".toList ++ [letter] ++ " option\n".toList)
                finish 0 (position + 1) 0 ['?'] none
        | _ :: _ => finish 0 (position + 1) next [letter] none
        | [] =>
          if isQuiet then finish 0 (position + 1) next ['?'] (some [letter])
          else
            Act.write 2 ("Illegal option -".toList ++ [letter] ++ ['\n'])
            finish 0 (position + 1) next ['?'] none
    | _ => finish 1 index 0 ['?'] none
  | _ => fail "getopts" "Usage: getopts optstring var [arg]".toList

/-! ### Jumps -/

/-- The status that a word is, or the present one. -/
def statusOf (command : String) (words : List Octets) : Act Unit := do
  match words with
  | [] => return
  | w :: _ => Act.setStatus ((← number command w) % 256)

def exit : Program := fun _ words => do
  statusOf "exit" words
  throw .exit

def back : Program := fun _ words => do
  statusOf "return" words
  throw .back

/-- Leaves or goes on with loops, as many as there are at most. -/
def jump (command : String) (to_ : Nat → Jump) : Program := fun _ words => do
  let n ← match words with
    | [] => pure 1
    | w :: _ => number command w
  if n = 0 && !words.isEmpty then fail command ("Illegal number: ".toList ++ words.headD [])
  let n := min n (← Act.env).loops
  if n = 0 then return 0
  Act.setStatus 0
  throw (to_ n)

/-! ### Signals -/

def kill : Program := fun _ words => do
  let usage : Act Nat := fail "kill"
    "Usage: kill [-s sigspec | -signum | -sigspec] [pid | job]... or\nkill -l [exitstatus]".toList
  let (signal, targets) : Option Nat × List Octets ← match words with
    | ['-', 's'] :: name :: rest =>
      match Signal.ofWord? name with
      | some n => pure (some n, rest)
      | none => fail "kill" ("invalid signal number or name: ".toList ++ name)
    | ['-', '-'] :: rest => pure (some 15, rest)
    | ['-', 'l'] :: _ => pure (none, words.drop 1)
    | ('-' :: name) :: rest =>
      match Signal.ofWord? name with
      | some n => pure (some n, rest)
      | none => fail "kill" ("Illegal option -".toList ++ name.take 1)
    | words => pure (some 15, words)
  match signal, targets with
  | none, [] =>
    Program.writeLine ['0']
    for name in Signal.names do Program.writeLine name.toList
    return 0
  | none, w :: _ =>
    let n ← number "kill" w
    match Signal.name? (n % 128) with
    | some name =>
      Program.writeLine name.toList
      return 0
    | none => fail "kill" ("invalid signal number or exit status: ".toList ++ w)
  | some _, [] => usage
  | some signal, targets =>
    let mut status := 0
    for t in targets do
      let own := (← Act.env).process
      if t.head? = some '%' then fail "kill" ("No such job: ".toList ++ t)
      match Octets.int? t with
      | none => fail "kill" ("Illegal number: ".toList ++ t)
      | some i =>
        if i = own || i = 0 then
          let trap := (← Act.env).traps.find? fun x => some x.1 == (Signal.name? signal).map String.toList
          match trap with
          | some (_, script) =>
            if signal = 9 then throw (.killed own signal)
            Act.modifyEnv fun e => { e with pending := e.pending ++ [script] }
          | none => if !Signal.isHarmless signal then throw (.killed own signal)
        else if i.toNat ≤ own || i.toNat > (← get).processes then
          warn "kill" "No such process\n".toList
          status := 1
    return status

def trap : Program := fun _ words => do
  let words := if words.head? = some ['-', '-'] then words.drop 1 else words
  let set (action : Option Octets) (conditions : List Octets) : Act Nat := do
    let mut status := 0
    for c in conditions do
      match Signal.condition? c with
      | none =>
        Act.write 2 ("trap: ".toList ++ c ++ ": bad trap\n".toList)
        status := 1
      | some name =>
        Act.modifyEnv fun e =>
          let others := e.traps.filter (·.1 != name)
          { e with traps := match action with
            | some a => others ++ [(name, a)]
            | none => others }
    return status
  match words with
  | [] =>
    let traps := (← Act.env).traps
    let known := "EXIT".toList :: Signal.names.map String.toList
    for name in known do
      match traps.find? (·.1 == name) with
      | some (_, action) => Program.writeLine ("trap -- ".toList ++ singleQuoted action ++ [' '] ++ name)
      | none => pure ()
    return 0
  | [w] => set none [w]
  | action :: conditions =>
    if action = ['-'] || (Octets.nat? action).isSome then
      set none (if action = ['-'] then conditions else words)
    else set (some action) conditions

/-! ### Other commands -/

/-- The names of all commands that a shell itself performs. -/
def names : List String :=
  [".", ":", "[", "alias", "bg", "break", "cd", "chdir", "command", "continue", "echo", "eval", "exec", "exit", "export",
    "false", "fg", "getopts", "hash", "jobs", "kill", "local", "printf", "pwd", "read", "readonly", "return", "set",
    "shift", "test", "times", "trap", "true", "type", "ulimit", "umask", "unalias", "unset", "wait"]

def isName (name : Octets) : Bool := names.any (·.toList == name)

/-- A command whose errors end the shell and whose assignments stay. -/
def isSpecial (name : Octets) : Bool :=
  [".", ":", "break", "continue", "eval", "exec", "exit", "export", "local", "readonly", "return", "set", "shift", "times",
    "trap", "unset"].any (·.toList == name)

/-- What a name is: a keyword, a function, a command of the shell, or a program with its full name. -/
inductive Meaning where
  | keyword
  | function
  | builtin
  | program (fullName : Octets)

def meaning? (name : Octets) : Act (Option Meaning) := do
  let s ← get
  if (Keyword.ofText? name).isSome then return some .keyword
  if isSpecial name then return some .builtin
  if s.env.functions.any (·.1 == name) then return some .function
  if isName name then return some .builtin
  match Lookup.find s [] name with
  | .ok (full, _) => return some (.program full)
  | .error _ => return none

/-- Tells what a name is. -/
def describe (name : Octets) : Act Bool := do
  let say (o : String) : Act Bool := do
    Program.writeLine (name ++ [' '] ++ o.toList)
    return true
  match ← meaning? name with
  | some .keyword => say "is a shell keyword"
  | some .function => say "is a shell function"
  | some .builtin =>
    say (if isSpecial name then "is a special shell builtin" else "is a shell builtin")
  | some (.program full) => say ("is " ++ String.ofList full)
  | none =>
    Program.writeLine (name ++ ": not found".toList)
    return false

def type : Program := fun _ words => do
  let mut status := 0
  for w in words do
    if !(← describe w) then status := 127
  return status

/-- Tells how names are called. -/
def commandNames (verbose : Bool) (words : List Octets) : Act Nat := do
  match words with
  | [] => return 0
  | w :: _ =>
    if verbose then return if ← describe w then 0 else 127
    match ← meaning? w with
    | some (.program full) =>
      Program.writeLine full
      return 0
    | some _ =>
      Program.writeLine w
      return 0
    | none => return 127

def eval : Program := fun host words => do
  Act.setStatus 0
  host.interpret "eval: ".toList (Text.join [' '] words)
  return (← Act.env).status

/-- The text of a script that is read in. -/
def sourceText (name : Octets) : Act Octets := do
  if name.contains '/' then
    match ← Act.contents name with
    | .ok o => return o
    | .error _ => fail "." ("cannot open ".toList ++ name ++ ": No such file".toList)
  else
    let s ← get
    let path := ((s.env.bindings.find? (·.1 == "PATH".toList)).bind fun b => b.2.value).getD []
    for dir in Text.splitOn ':' path do
      match ← Act.contents (if dir.isEmpty then name else dir ++ '/' :: name) with
      | .ok o => return o
      | .error _ => pure ()
    fail "." (name ++ ": not found".toList)

def source : Program := fun host words => do
  match words with
  | [] => return 0
  | name :: _ =>
    let text ← sourceText name
    Act.setStatus 0
    match ← Act.caught (host.interpret (name ++ [':', ' ']) text) with
    | .ok () | .error .back => return (← Act.env).status
    | .error j => throw j

def umask : Program := fun _ words => do
  let mask := (← Act.env).mask
  let permissions (n : Nat) : Octets :=
    (if n / 4 % 2 = 0 then ['r'] else []) ++ (if n / 2 % 2 = 0 then ['w'] else []) ++ (if n % 2 = 0 then ['x'] else [])
  match words with
  | [] =>
    let digits := Octets.inBase 8 mask
    Program.writeLine (List.replicate (4 - digits.length) '0' ++ digits)
    return 0
  | ['-', 'S'] :: _ =>
    Program.writeLine ("u=".toList ++ permissions (mask / 64) ++ ",g=".toList ++ permissions (mask / 8) ++
      ",o=".toList ++ permissions mask)
    return 0
  | w :: _ =>
    if w.all fun c => '0' ≤ c && c ≤ '7' then
      Act.modifyEnv fun e => { e with mask := Octets.natOf 8 w % 512 }
      return 0
    else if w.head?.any Char.isDigit then fail "umask" ("Illegal number: ".toList ++ w)
    else return 0

/-- The times that a shell and its commands took; nothing takes any time. -/
def times : Program := fun _ _ => do
  for _ in [1, 2] do Program.writeLine "0m0.000000s 0m0.000000s".toList
  return 0

def hash : Program := fun _ words => do
  let mut status := 0
  for w in words do
    if (← meaning? w).isNone then
      warn "hash" (w ++ ": not found".toList)
      status := 1
  return status

/-- The status of a process that has ended in the background. -/
def wait : Program := fun _ words => do
  let e ← Act.env
  match words with
  | [] => return 0
  | w :: _ =>
    match Octets.nat? w with
    | some n => return ((e.ended.find? (·.1 == n)).map Prod.snd).getD 127
    | none => return 2

/-- The command of a shell with a name. -/
def find? (name : Octets) : Option Program :=
  match String.ofList name with
  | ":" | "true" | "ulimit" | "jobs" | "fg" | "bg" | "alias" | "unalias" => some fun _ _ => return 0
  | "false" => some fun _ _ => return 1
  | "." => some source
  | "[" => some bracket
  | "test" => some (test "test")
  | "break" => some (jump "break" .leave)
  | "continue" => some (jump "continue" .again)
  | "cd" | "chdir" => some cd
  | "echo" => some echo
  | "eval" => some eval
  | "exit" => some exit
  | "export" => some exportVariables
  | "getopts" => some getopts
  | "hash" => some hash
  | "kill" => some kill
  | "local" => some localVariables
  | "printf" => some printf
  | "pwd" => some pwd
  | "read" => some read
  | "readonly" => some makeReadonly
  | "return" => some back
  | "set" => some set
  | "shift" => some shift
  | "times" => some times
  | "trap" => some trap
  | "type" => some type
  | "umask" => some umask
  | "unset" => some unset
  | "wait" => some wait
  | _ => none

end Graft.Shell.Builtin
