/-
The state of shells between two commands.

All shells of a run share the files and the open streams.  Each has an environment of its own: its directory, its
parameters, and which streams its descriptors lead to.  An action works on this state and may jump: out of a loop, out
of a function, or out of the shell.

Main statements: `Act`, `Act.inOwn` (an action in an environment of its own, which is gone afterwards),
`Act.assign`, `Act.fail`.
-/
import Graft.Project.FileTree
import Graft.Shell.Script

namespace Graft.Shell

/-! ### The state -/

/-- Where reading takes from and writing goes to. -/
inductive Stream where
  /-- Nothing is read, and what is written is lost. -/
  | nothing
  /-- What was written and has not been read. -/
  | pipe (content : Octets)
  /-- A file at a position, or always at its end. -/
  | file (path : Path) (position : Nat) (atEnd : Bool)
deriving DecidableEq, Repr, Inhabited

/-- A variable.  It may be known without having a value. -/
structure Binding where
  value : Option Octets
  exported : Bool
  readonly : Bool
deriving DecidableEq, Repr

structure Function where
  /-- The line on which it was defined, from which its lines count. -/
  line : Nat
  body : Script

structure Environment where
  dir : Path
  /-- The streams behind the descriptors. -/
  descriptors : List (Nat × Nat)
  bindings : List (Octets × Binding)
  /-- Bindings that a function has put its own in place of. -/
  shadowed : List (Octets × Option Binding)
  functions : List (Octets × Function)
  /-- The name under which the shell runs. -/
  name : Octets
  arguments : List Octets
  /-- The letters of the options that are on. -/
  flags : Octets
  /-- The permissions that new files do not get. -/
  mask : Nat
  /-- Scripts by the conditions on which they run. -/
  traps : List (Octets × Octets)
  /-- Scripts of traps that are to run behind the present command. -/
  pending : List Octets
  process : Nat
  /-- The number of the last process in the background. -/
  lastProcess : Option Nat
  /-- The processes that have ended in the background, with their status. -/
  ended : List (Nat × Nat)
  /-- The number of loops around the present command. -/
  loops : Nat
  /-- The line of the function around the present command. -/
  functionLine : Option Nat
  line : Nat
  /-- The status of the last command. -/
  status : Nat
  /-- The status of the last script whose output was taken. -/
  outputStatus : Nat
  /-- The letter within an argument that `getopts` is at. -/
  optionOffset : Nat

structure Session where
  tree : FileTree
  streams : Array Stream
  /-- How many processes there were. -/
  processes : Nat
  env : Environment

/-! ### Actions -/

/-- A way out of the commands that surround the present one. -/
inductive Jump where
  /-- Out of some loops. -/
  | leave (loops : Nat)
  /-- To the next round of a loop, out of those inside of it. -/
  | again (loops : Nat)
  /-- Out of a function. -/
  | back
  | exit
  /-- An error that ends a shell. -/
  | failure
  /-- A signal that ends a process. -/
  | killed (process signal : Nat)
deriving DecidableEq, Repr

abbrev Act := ExceptT Jump (StateM Session)

namespace Act

def env : Act Environment := do return (← get).env

def modifyEnv (f : Environment → Environment) : Act Unit := modify fun s => { s with env := f s.env }

def tree : Act FileTree := do return (← get).tree

def modifyTree (f : FileTree → FileTree) : Act Unit := modify fun s => { s with tree := f s.tree }

/-- A change of the tree that may fail. -/
def onTree (f : FileTree → Except IoError FileTree) : Act (Except IoError Unit) := do
  match f (← tree) with
  | .ok t =>
    modifyTree fun _ => t
    return .ok ()
  | .error e => return .error e

def setStatus (n : Nat) : Act Unit := modifyEnv fun e => { e with status := n }

/-- What an action ended with, its jumps included. -/
def caught {α : Type} (a : Act α) : Act (Except Jump α) := fun s =>
  let (r, s) := a s
  (.ok r, s)

/-- Runs an action whose changes of the environment are lost. -/
def inOwn {α : Type} (a : Act α) : Act (Except Jump α) := do
  let before ← env
  let r ← caught a
  modifyEnv fun _ => before
  return r

/-- The environment is as before, however an action ends. -/
theorem env_inOwn {α : Type} (a : Act α) (s : Session) : ((inOwn a).run.run s).2.env = s.env := rfl

end Act

/-! ### Names of files -/

/-- The path under which shells know the directory of the project. -/
def home : Octets := "/srv/project".toList

/-- What the name of a file leads to. -/
inductive Place where
  | sink
  | descriptor (n : Nat)
  | path (p : Path)
deriving DecidableEq, Repr

/-- The files that stand for descriptors, and the one that is always empty. -/
def device? (word : Octets) : Option Place :=
  if word = "/dev/null".toList then some .sink
  else if word = "/dev/stdin".toList then some (.descriptor 0)
  else if word = "/dev/stdout".toList then some (.descriptor 1)
  else if word = "/dev/stderr".toList then some (.descriptor 2)
  else ((Text.strip? "/dev/fd/".toList word).bind Octets.nat?).map .descriptor

/-- The text of a path from the root on. -/
def fullName (p : Path) : Octets :=
  let parts := match p with
    | ['/'] :: rest => rest
    | p =>
      let ups := p.takeWhile (· == Path.upward)
      let base := (Text.splitOn '/' home).drop 1
      base.take (base.length - ups.length) ++ p.drop ups.length
  '/' :: Text.join ['/'] (parts.map Octets.ofText)

namespace Session

/-- The path that a name leads to. -/
def locate (s : Session) (word : Octets) : Except IoError Path :=
  match Text.strip? home word with
  | some [] => .ok []
  | some ('/' :: rest) => s.tree.locateFrom [] ('.' :: '/' :: Octets.toText rest)
  | _ => s.tree.locateFrom s.env.dir (Octets.toText word)

def place (s : Session) (word : Octets) : Except IoError Place :=
  match device? word with
  | some d => .ok d
  | none => (s.locate word).map .path

/-- What a name leads to in the tree. -/
def entryAt? (s : Session) (word : Octets) : Except IoError (Option Entry) := (s.locate word).map s.tree.get?

end Session

/-! ### Streams -/

namespace Act

/-- The stream behind a descriptor. -/
def stream? (d : Nat) : Act (Option Nat) := do return ((← env).descriptors.find? (·.1 == d)).map Prod.snd

def addStream (s : Stream) : Act Nat := do
  let n := (← get).streams.size
  modify fun t => { t with streams := t.streams.push s }
  return n

def setStream (n : Nat) (s : Stream) : Act Unit := modify fun t => { t with streams := t.streams.setIfInBounds n s }

/-- Lets a descriptor lead to a stream, or to none. -/
def setDescriptor (d : Nat) (stream : Option Nat) : Act Unit := modifyEnv fun e =>
  let others := e.descriptors.filter (·.1 != d)
  { e with descriptors := match stream with
    | some n => (d, n) :: others
    | none => others }

/-- Bytes written into a text at a position. -/
def overwrite (old : Octets) (position : Nat) (o : Octets) : Octets :=
  if position = old.length then old ++ o
  else old.take position ++ List.replicate (position - old.length) (Char.ofNat 0) ++ o ++ old.drop (position + o.length)

def contentOf (c : Content) : Octets := Octets.ofBytes c.toBytes

def ofOctets (o : Octets) : Content := .ofBytes (Octets.toBytes o)

/-- Writes to a stream. -/
def writeTo (n : Nat) (o : Octets) : Act Unit := do
  match (← get).streams[n]? with
  | some (.pipe content) => setStream n (.pipe (content ++ o))
  | some (.file path position atEnd) =>
    if o.isEmpty then return
    match (← tree).get? path with
    | some (.file c x) =>
      let old := contentOf c
      let position := if atEnd then old.length else position
      modifyTree fun t => t.put path (.file (ofOctets (overwrite old position o)) x)
      setStream n (.file path (position + o.length) atEnd)
    | _ => return
  | _ => return

/-- Writes to a descriptor; nothing happens when it is closed. -/
def write (d : Nat) (o : Octets) : Act Unit := do
  if let some n ← stream? d then writeTo n o

/-- All that a stream still holds. -/
def remaining (n : Nat) : Act Octets := do
  match (← get).streams[n]? with
  | some (.pipe content) => return content
  | some (.file path position _) =>
    match (← tree).get? path with
    | some (.file c _) => return (contentOf c).drop position
    | _ => return []
  | _ => return []

/-- Takes bytes from the front of a stream. -/
def advance (n count : Nat) : Act Unit := do
  match (← get).streams[n]? with
  | some (.pipe content) => setStream n (.pipe (content.drop count))
  | some (.file path position atEnd) => setStream n (.file path (position + count) atEnd)
  | _ => return

/-- Takes all that a descriptor still holds; nothing comes of a closed one. -/
def readAll? (d : Nat) : Act (Option Octets) := do
  match ← stream? d with
  | some n =>
    let o ← remaining n
    advance n o.length
    return some o
  | none => return none

/-- Takes a line from a descriptor, with its line feed if it has one. -/
def readLine (d : Nat) : Act Octets := do
  match ← stream? d with
  | some n =>
    let o ← remaining n
    let (line, rest) := Text.firstLine o
    let line := line ++ rest.take 1
    advance n line.length
    return line
  | none => return []

/-- The stream of a file that is opened. -/
def openPath (o : Opening) (keep : Bool) (p : Path) : Act (Except IoError Nat) := do
  let file (position : Nat) (atEnd : Bool) : Act (Except IoError Nat) :=
    return .ok (← addStream (.file p position atEnd))
  match o, (← tree).get? p with
  | .read, some .directory => file 0 false
  | _, some .directory => return .error .isDirectory
  | .read, none => return .error .notFound
  | .read, some (.file ..) | .readWrite, some (.file ..) => file 0 false
  | .append, some (.file ..) => file 0 true
  | _, some (.file _ x) =>
    if keep && o = .write then return .error .alreadyExists
    modifyTree fun t => t.put p (.file (.text []) x)
    file 0 false
  | _, none =>
    modifyTree fun t => t.put p (.file (.text []) false)
    file 0 (o = .append)

/-- Opens what a name leads to.  With `keep`, a file that is there is not emptied. -/
def openName (o : Opening) (keep : Bool) (word : Octets) : Act (Except IoError Nat) := do
  match (← get).place word with
  | .error e => return .error e
  | .ok .sink => return .ok (← addStream .nothing)
  | .ok (.descriptor d) =>
    match ← stream? d with
    | some n => return .ok n
    | none => return .error .notFound
  | .ok (.path p) => openPath o keep p

/-- The content of what a name leads to. -/
def contents (word : Octets) : Act (Except IoError Octets) := do
  match (← get).place word with
  | .error e => return .error e
  | .ok .sink => return .ok []
  | .ok (.descriptor d) => return .ok ((← readAll? d).getD [])
  | .ok (.path p) =>
    match (← tree).get? p with
    | some (.file c _) => return .ok (contentOf c)
    | some .directory => return .error .isDirectory
    | none => return .error .notFound

/-! ### Messages -/

/-- Writes a message of the shell. -/
def report (message : Octets) : Act Unit := do
  let e ← env
  write 2 (e.name ++ ": ".toList ++ Text.ofNat e.line ++ ": ".toList ++ message ++ ['\n'])

/-- Ends the shell with a message, or only a command of it that may fail. -/
def fail {α : Type} (message : Octets) : Act α := do
  report message
  setStatus 2
  throw .failure

/-! ### Variables -/

def binding? (name : Octets) : Act (Option Binding) := do
  return ((← env).bindings.find? (·.1 == name)).map Prod.snd

def setBinding (name : Octets) (b : Option Binding) : Act Unit := modifyEnv fun e =>
  let others := e.bindings.filter (·.1 != name)
  { e with bindings := match b with
    | some b => (name, b) :: others
    | none => others }

/-- The value of a variable. -/
def lookup? (name : Octets) : Act (Option Octets) := do
  return (← binding? name).bind Binding.value

def valueOf (name : String) : Act Octets := do return (← lookup? name.toList).getD []

/-- Gives a variable a value, unless that is forbidden. -/
def assign (name value : Octets) : Act Unit := do
  match ← binding? name with
  | some b =>
    if b.readonly then fail (name ++ ": is read only".toList)
    setBinding name (some { b with value := some value })
  | none => setBinding name (some ⟨some value, (← env).flags.contains 'a', false⟩)
  if name = "OPTIND".toList then modifyEnv fun e => { e with optionOffset := 0 }

/-- An option of the shell is on. -/
def hasFlag (c : Char) : Act Bool := do return (← env).flags.contains c

end Act

end Graft.Shell
