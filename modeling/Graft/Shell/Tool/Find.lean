/-
A tool that goes through directories and tests what is there.

Main statements: `Tool.find`, `Finding` (the expressions), `FindReader.whole` (their reading), `postOrder_nil`.
-/
import Graft.Shell.Tool.Names
import Graft.Shell.Wildcard

namespace Graft.Shell.Tool

open Program

/-! ### Expressions -/

/-- A number, or more or less than it. -/
structure Amount where
  sign : Option Char
  number : Nat

namespace Amount

def holds (a : Amount) (n : Nat) : Bool :=
  match a.sign with
  | some '+' => n > a.number
  | some _ => n < a.number
  | none => n = a.number

/-- The amount of a text and what follows it. -/
def ofOctets? (t : Octets) : Option (Amount × Octets) :=
  let (sign, u) : Option Char × Octets := match t with
    | '+' :: u => (some '+', u)
    | '-' :: u => (some '-', u)
    | u => (none, u)
  let digits := u.takeWhile Char.isDigit
  if digits.isEmpty then none else some (⟨sign, Octets.natOf 10 digits⟩, u.drop digits.length)

end Amount

/-- What is asked of the names that are found, or done with them. -/
inductive Finding where
  | always (value : Bool)
  | name (pattern : Octets) (ignoreCase : Bool)
  | path (pattern : Octets) (ignoreCase : Bool)
  | kind (letters : Octets)
  | empty
  | size (amount : Amount) (unit : Nat)
  /-- An age in days or minutes; all files are new. -/
  | age (amount : Amount)
  | executable
  /-- The bits of a mode, all of them or some, or just these. -/
  | mode (bits : Nat) (sign : Option Char)
  | print (finish : Octets)
  | printed (format : Octets)
  | delete
  | execute (words : List Octets)
  | executeAll (number : Nat) (words : List Octets)
  | prune
  | quit
  | not (a : Finding)
  | and (a b : Finding)
  | or (a b : Finding)
  | list (a b : Finding)

namespace Finding

/-- Something is done with the names, so that they are not printed besides. -/
def acts : Finding → Bool
  | print _ | printed _ | delete | execute _ | executeAll .. => true
  | not a => acts a
  | and a b | or a b | list a b => acts a || acts b
  | _ => false

def deletes : Finding → Bool
  | delete => true
  | not a => deletes a
  | and a b | or a b | list a b => deletes a || deletes b
  | _ => false

end Finding

/-- Bounds and order of a search. -/
structure FindRange where
  least : Nat := 0
  most : Option Nat := none
  /-- Directories come behind what is in them. -/
  depthFirst : Bool := false

namespace FindReader

/-! ### Reading -/

/-- What is read, with the bounds that were found on the way and the number of commands. -/
structure State where
  range : FindRange := {}
  commands : Nat := 0

abbrev Reading := StateT State (Except Octets)

/-- The mode that digits or letters write. -/
def modeBits (t : Octets) : Option Nat :=
  if !t.isEmpty && t.all fun c => '0' ≤ c && c ≤ '7' then some (Octets.natOf 8 t)
  else
    let parts := Text.splitOn ',' t
    let bits := parts.map fun part =>
      let who := part.takeWhile fun c => "ugoa".toList.contains c
      let sets := (part.drop who.length).drop 1
      let one : Nat := (if sets.contains 'r' then 4 else 0) + (if sets.contains 'w' then 2 else 0) +
        (if sets.contains 'x' then 1 else 0)
      let has (c : Char) : Bool := who.isEmpty || who.contains c || who.contains 'a'
      (if has 'u' then 64 * one else 0) + (if has 'g' then 8 * one else 0) + (if has 'o' then one else 0)
    some (bits.foldl (· + ·) 0)

/-- The command up to its end. -/
def commandWords : List Octets → Option (List Octets × Bool × List Octets)
  | [] => none
  | [';'] :: rest => some ([], false, rest)
  | ['\x7b', '\x7d'] :: ['+'] :: rest => some ([['\x7b', '\x7d']], true, rest)
  | w :: rest => (commandWords rest).map fun (ws, all, rest) => (w :: ws, all, rest)

/-- The number of bytes in a unit. -/
def unitOf (t : Octets) : Option Nat :=
  match t with
  | [] | ['b'] => some 512
  | ['c'] => some 1
  | ['w'] => some 2
  | ['k'] => some 1024
  | ['M'] => some (1024 * 1024)
  | ['G'] => some (1024 * 1024 * 1024)
  | _ => none

/-- A test or an action by its word, with what follows it. -/
def primary (word : Octets) (rest : List Octets) : Reading (Finding × List Octets) := do
  let missing : Octets := "missing argument to `".toList ++ word ++ ['\'']
  let argument : Reading (Octets × List Octets) :=
    match rest with
    | a :: rest => return (a, rest)
    | [] => throw missing
  let invalid {α : Type} (a : Octets) : Reading α :=
    throw ("invalid argument `".toList ++ a ++ "' to `".toList ++ word ++ ['\''])
  let withText (f : Octets → Finding) : Reading (Finding × List Octets) := do
    let (a, rest) ← argument
    return (f a, rest)
  let withAmount (f : Amount → Octets → Option Finding) : Reading (Finding × List Octets) := do
    let (a, rest) ← argument
    match (Amount.ofOctets? a).bind fun (n, u) => f n u with
    | some e => return (e, rest)
    | none => invalid a
  let depth (f : FindRange → Nat → FindRange) : Reading (Finding × List Octets) := do
    let (a, rest) ← argument
    match Octets.nat? a with
    | some n =>
      modify fun s => { s with range := f s.range n }
      return (.always true, rest)
    | none =>
      throw ("Expected a positive decimal integer argument to ".toList ++ word ++ ", but got ".toList ++ quoted a)
  match String.ofList word with
  | "-name" => withText fun a => .name a false
  | "-iname" => withText fun a => .name a true
  | "-path" | "-wholename" => withText fun a => .path a false
  | "-ipath" | "-iwholename" => withText fun a => .path a true
  | "-type" =>
    let (a, rest) ← argument
    match (a.filter (· != ',')).find? fun c => !"bcdpflsD".toList.contains c with
    | some c => throw ("Unknown argument to -type: ".toList ++ [c])
    | none => return (.kind (a.filter (· != ',')), rest)
  | "-empty" => return (.empty, rest)
  | "-size" => withAmount fun n u => (unitOf u).map (.size n)
  | "-mtime" | "-mmin" | "-atime" | "-amin" | "-ctime" | "-cmin" =>
    withAmount fun n u => if u.isEmpty then some (.age n) else none
  | "-newer" | "-anewer" | "-cnewer" | "-samefile" => withText fun _ => .always false
  | "-user" | "-group" | "-uid" | "-gid" => withText fun a => .always (a = "root".toList || a = ['0'])
  | "-executable" => return (.executable, rest)
  | "-readable" | "-writable" | "-true" | "-noleaf" | "-xdev" | "-mount" | "-follow" | "-daystart" | "-nowarn" =>
    return (.always true, rest)
  | "-false" => return (.always false, rest)
  | "-perm" =>
    let (a, rest) ← argument
    let (sign, u) : Option Char × Octets := match a with
      | '-' :: u => (some '-', u)
      | '/' :: u => (some '/', u)
      | u => (none, u)
    match modeBits u with
    | some n => return (.mode n sign, rest)
    | none => throw ("invalid mode ".toList ++ quoted a)
  | "-print" => return (.print ['\n'], rest)
  | "-print0" => return (.print [Char.ofNat 0], rest)
  | "-printf" => withText .printed
  | "-delete" =>
    modify fun s => { s with range := { s.range with depthFirst := true } }
    return (.delete, rest)
  | "-depth" =>
    modify fun s => { s with range := { s.range with depthFirst := true } }
    return (.always true, rest)
  | "-maxdepth" => depth fun r n => { r with most := some n }
  | "-mindepth" => depth fun r n => { r with least := n }
  | "-prune" => return (.prune, rest)
  | "-quit" => return (.quit, rest)
  | "-exec" | "-execdir" =>
    match commandWords rest with
    | some (w :: ws, all, rest) =>
      let s ← get
      set { s with commands := s.commands + 1 }
      return (if all then .executeAll s.commands (w :: ws) else .execute (w :: ws), rest)
    | _ => throw missing
  | _ =>
    if word.head? = some '-' then throw ("unknown predicate `".toList ++ word ++ ['\''])
    else throw ("paths must precede expression: `".toList ++ word ++ ['\''])

def isAnd (w : Octets) : Bool := w = "-a".toList || w = "-and".toList

def isOr (w : Octets) : Bool := w = "-o".toList || w = "-or".toList

def isNot (w : Octets) : Bool := w = ['!'] || w = "-not".toList

/-- Operators with what they need behind them. -/
def expected (op : Octets) (rest : List Octets) : Except Octets Unit :=
  if rest.isEmpty then .error ("expected an expression after ".toList ++ quoted op) else .ok ()

mutual

/-- Expressions with commas between them; the bound lasts. -/
def whole : Nat → List Octets → Reading (Finding × List Octets)
  | 0, _ => throw "invalid expression".toList
  | n + 1, words => do
    let (a, rest) ← alternatives n words
    match rest with
    | [','] :: rest =>
      expected [','] rest
      let (b, rest) ← whole n rest
      return (.list a b, rest)
    | _ => return (a, rest)

/-- Expressions of which one holds. -/
def alternatives : Nat → List Octets → Reading (Finding × List Octets)
  | 0, _ => throw "invalid expression".toList
  | n + 1, words => do
    let (a, rest) ← conjunction n words
    match rest with
    | op :: rest' =>
      if isOr op then
        expected op rest'
        let (b, rest) ← alternatives n rest'
        return (.or a b, rest)
      else return (a, rest)
    | [] => return (a, rest)

/-- Expressions that all hold. -/
def conjunction : Nat → List Octets → Reading (Finding × List Octets)
  | 0, _ => throw "invalid expression".toList
  | n + 1, words => do
    let (a, rest) ← negation n words
    match rest with
    | [] => return (a, rest)
    | op :: rest' =>
      if isAnd op then
        expected op rest'
        let (b, rest) ← conjunction n rest'
        return (.and a b, rest)
      else if isOr op || op = [','] || op = [')'] then return (a, rest)
      else
        let (b, rest) ← conjunction n rest
        return (.and a b, rest)

def negation : Nat → List Octets → Reading (Finding × List Octets)
  | 0, _ => throw "invalid expression".toList
  | n + 1, words => do
    match words with
    | [] => throw "invalid expression".toList
    | ['('] :: rest =>
      let unclosed : Octets :=
        "invalid expression; expected to find a ')' but didn't see one. Perhaps you need an extra predicate after '('".toList
      if rest.isEmpty then throw unclosed
      let (a, rest) ← whole n rest
      match rest with
      | [')'] :: rest => return (a, rest)
      | _ => throw unclosed
    | [')'] :: _ => throw "invalid expression; you have too many ')'".toList
    | w :: rest =>
      if isNot w then
        expected w rest
        let (a, rest) ← negation n rest
        return (.not a, rest)
      else if isAnd w || isOr w then
        throw ("invalid expression; you have used a binary operator '".toList ++ w ++ "' with nothing before it.".toList)
      else primary w rest

end

/-- The expression of some words; without any, all names are printed. -/
def expression (words : List Octets) : Except Octets (Finding × FindRange) := do
  if words.isEmpty then return (.print ['\n'], {})
  let ((e, rest), s) ← (whole (4 * words.length + 4) words).run {}
  match rest with
  | [] => return (if e.acts then e else .and e (.print ['\n']), s.range)
  | _ => throw "invalid expression; you have too many ')'".toList

end FindReader

/-! ### Names that are found -/

/-- A name, where it leads, and how deep it lies below its start. -/
structure Found where
  start : Octets
  name : Octets
  path : Path
  depth : Nat

/-- The order in which directories come behind what is in them. -/
def postOrder : Path → Path → Bool
  | _, [] => true
  | [], _ :: _ => false
  | a :: p, b :: q => if a = b then postOrder p q else a.le b

/-- A directory comes behind all else that begins at it. -/
theorem postOrder_nil (p : Path) : postOrder p [] = true := by cases p <;> rfl

/-- The state of a search. -/
structure FindState where
  pruned : Bool := false
  stopped : Bool := false
  status : Nat := 0
  /-- The names that are collected for commands. -/
  collected : List (Nat × List Octets × Octets) := []

abbrev FindM := StateT FindState Act

/-- The text of a directive of a format. -/
def findDirective (f : Found) (e : Option Entry) (c : Char) : Octets :=
  let executable := match e with
    | some (.file _ false) => false
    | _ => true
  match c with
  | 'p' => f.name
  | 'f' => baseOf f.name
  | 'h' => directoryOf f.name
  | 'P' => (f.name.drop f.start.length).dropWhile (· == '/')
  | 'H' => f.start
  | 'd' => Text.ofNat f.depth
  | 'y' => if e matches some .directory then ['d'] else ['f']
  | 'm' => if executable then "755".toList else "644".toList
  | 's' => match e with
    | some (.file c _) => Text.ofNat (Act.contentOf c).length
    | _ => "4096".toList
  | 'u' | 'g' => "root".toList
  | '%' => ['%']
  | c => ['%', c]

/-- The text of a name by a format. -/
def findText (f : Found) (e : Option Entry) : Octets → Octets
  | '%' :: c :: t => findDirective f e c ++ findText f e t
  | '\\' :: '0' :: t => Char.ofNat 0 :: findText f e t
  | '\\' :: 'n' :: t => '\n' :: findText f e t
  | '\\' :: 't' :: t => '\t' :: findText f e t
  | '\\' :: '\\' :: t => '\\' :: findText f e t
  | c :: t => c :: findText f e t
  | [] => []

/-- Runs a command, and tells when it is not there. -/
def callFound (host : Host) (words : List Octets) : Act Nat := do
  match ← host.find (words.headD []) with
  | .ok _ => host.call words
  | .error (status, _) =>
    complain "find" (quoted (words.headD []) ++
      (if status = 126 then ": Permission denied" else ": No such file or directory").toList)
    return status

/-- Removes what was found. -/
def deleteFound (f : Found) : FindM Bool := do
  let tree ← Act.tree
  if f.name = ['.'] then return true
  else if isEmptyDirectory tree f.path || !(tree.get? f.path matches some .directory) then
    Act.modifyTree (·.erase f.path)
    return true
  else
    complain "find" ("cannot delete ".toList ++ quoted f.name ++ ": Directory not empty".toList)
    modify fun s => { s with status := 1 }
    return false

/-- Whether an expression holds of what was found; actions are done on the way. -/
def holdsOf (host : Host) (f : Found) : Finding → FindM Bool
  | .always b => return b
  | .name g ic => return fitsText g ic (baseOf f.name)
  | .path g ic => return fitsText g ic f.name
  | .kind letters => do
    let isDirectory := (← Act.tree).get? f.path matches some .directory
    return letters.contains (if isDirectory then 'd' else 'f')
  | .empty => do
    let tree ← Act.tree
    match tree.get? f.path with
    | some (.file c _) => return (Act.contentOf c).isEmpty
    | some .directory => return isEmptyDirectory tree f.path
    | none => return false
  | .size a unit => do
    let size := match (← Act.tree).get? f.path with
      | some (.file c _) => (Act.contentOf c).length
      | _ => 4096
    return a.holds ((size + unit - 1) / unit)
  | .age a => return a.holds 0
  | .executable => return isExecutable (← Act.tree)
  | .mode bits sign => do
    let own := if isExecutable (← Act.tree) then 493 else 420
    return match sign with
      | some '-' => own &&& bits == bits
      | some _ => bits == 0 || own &&& bits != 0
      | none => own == bits
  | .print finish => do
    Act.write 1 (f.name ++ finish)
    return true
  | .printed format => do
    Act.write 1 (findText f ((← Act.tree).get? f.path) format)
    return true
  | .delete => deleteFound f
  | .execute words => do
    let n ← callFound host (words.map (Text.replace ['\x7b', '\x7d'] f.name))
    return n = 0
  | .executeAll number words => do
    modify fun s => { s with collected := s.collected ++ [(number, words, f.name)] }
    return true
  | .prune => do
    modify fun s => { s with pruned := true }
    return true
  | .quit => do
    modify fun s => { s with stopped := true }
    return true
  | .not a => do return !(← holdsOf host f a)
  | .and a b => do
    if ← holdsOf host f a then
      if (← get).stopped then return true else holdsOf host f b
    else return false
  | .or a b => do
    if ← holdsOf host f a then return true else holdsOf host f b
  | .list a b => do
    let _ ← holdsOf host f a
    holdsOf host f b
where
  fitsText (g : Octets) (ignoreCase : Bool) (t : Octets) : Bool :=
    let lower (t : Octets) : Octets := if ignoreCase then Text.lower t else t
    Wildcard.fits (Wildcard.ofOctets (lower g)) (lower t)
  isExecutable (tree : FileTree) : Bool :=
    match tree.get? f.path with
    | some (.file _ x) => x
    | _ => true

/-- Goes through what lies at and below a start. -/
def findBelow (host : Host) (e : Finding) (r : FindRange) (start : Octets) (p : Path) : FindM Unit := do
  let tree ← Act.tree
  let depthOf (q : Path) : Nat := q.length - p.length
  let all := (namesBelow tree start p).map fun (name, q, _) => (⟨start, name, q, depthOf q⟩ : Found)
  let all := all.filter fun f => r.most.all (f.depth ≤ ·)
  let all := if r.depthFirst then sortBy (fun a b => postOrder a.path b.path) all else all
  let mut left : List Path := []
  for f in all do
    let isLeft := left.any fun q => (q.below? f.path).isSome
    if !(← get).stopped && !isLeft then
      let wasDirectory := tree.get? f.path matches some .directory
      if f.depth ≥ r.least then
        modify fun s => { s with pruned := false }
        let _ ← holdsOf host f e
      if !r.depthFirst && wasDirectory then
        let goesOn := r.most.all (f.depth < ·)
        if (← get).pruned && f.depth ≥ r.least then left := f.path :: left
        else if goesOn && !(← get).stopped && !((← Act.tree).get? f.path matches some .directory) then
          complain "find" (quoted f.name ++ ": No such file or directory".toList)
          modify fun s => { s with status := 1 }
          left := f.path :: left

/-- Runs the commands for which names were collected. -/
def callCollected (host : Host) : FindM Unit := do
  let collected := (← get).collected
  let numbers := (collected.map Prod.fst).eraseDups
  for number in numbers do
    let mine := collected.filter (·.1 == number)
    match mine with
    | (_, words, _) :: _ =>
      let n ← callFound host (words.dropLast ++ mine.map fun x => x.2.2)
      if n != 0 then modify fun s => { s with status := 1 }
    | [] => pure ()

def isExpressionStart (w : Octets) : Bool :=
  match w with
  | '-' :: _ :: _ => true
  | ['('] | ['!'] => true
  | _ => false

def find : Program := fun host arguments => do
  let arguments := arguments.dropWhile fun a => a == "-H".toList || a == "-L".toList || a == "-P".toList
  let starts := arguments.takeWhile fun a => !isExpressionStart a
  match FindReader.expression (arguments.drop starts.length) with
  | .error message =>
    complain "find" message
    return 1
  | .ok (e, r) =>
    let search : FindM Unit := do
      for start in (if starts.isEmpty then [['.']] else starts) do
        if !(← get).stopped then
          let s ← getThe Session
          let refuse (reason : String) : FindM Unit := do
            complain "find" (quoted start ++ [':', ' '] ++ reason.toList)
            modify fun s => { s with status := 1 }
          match s.locate start with
          | .error x => refuse x.reason
          | .ok p =>
            if (s.tree.get? p).isNone then refuse IoError.notFound.reason
            else findBelow host e r start p
      callCollected host
    let ((), s) ← search.run {}
    return s.status

end Graft.Shell.Tool
