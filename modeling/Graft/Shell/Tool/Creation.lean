/-
Tools that create directories and files and change their modes.

Of the mode of a file only one bit is kept, the one that makes it executable.

Main statements: `Tool.mkdir`, `Tool.touch`, `Tool.truncate`, `Tool.chmod`, `Mode.ofOctets?`.
-/
import Graft.Shell.Tool.Removal

namespace Graft.Shell.Tool

open Program

/-! ### Modes -/

/-- What a change of mode does to the executable bit of a file. -/
inductive ModeChange where
  | keep
  | set (executable : Bool)
  /-- Directories and executable files become executable. -/
  | ifExecutable
deriving DecidableEq, Repr

/-- A change of mode: one step after the other. -/
abbrev Mode := List ModeChange

namespace Mode

/-- The change by a number in base eight. -/
def ofDigits? (t : Octets) : Option Mode :=
  let n := Octets.natOf 8 t
  if t.isEmpty || !t.all (fun c => '0' ≤ c && c ≤ '7') || n ≥ 4096 then none
  else some [.set (n % 2 == 1 || n / 8 % 2 == 1 || n / 64 % 2 == 1)]

/-- The changes of one part: letters for those concerned, then signs with permissions. -/
def ofPart? (part : Octets) : Option Mode :=
  let who := part.takeWhile fun c => "ugoa".toList.contains c
  let concerned := who.isEmpty || who.contains 'u' || who.contains 'a'
  let rec steps : Nat → Octets → Option Mode
    | 0, _ => none
    | _ + 1, [] => some []
    | n + 1, sign :: t =>
      if !(sign == '+' || sign == '-' || sign == '=') then none
      else
        let permissions := t.takeWhile fun c => "rwxXstugo".toList.contains c
        let x := permissions.contains 'x'
        let change : ModeChange :=
          if sign = '+' then
            if x then .set true else if permissions.contains 'X' then .ifExecutable else .keep
          else if !concerned then .keep
          else if sign = '-' then (if x || permissions.contains 'X' then .set false else .keep)
          else if permissions.any (fun c => "Xugo".toList.contains c) then .keep
          else .set x
        (steps n (t.drop permissions.length)).map (change :: ·)
  let rest := part.drop who.length
  if rest.isEmpty then none else steps (rest.length + 1) rest

def ofOctets? (t : Octets) : Option Mode :=
  if t.head?.any Char.isDigit then ofDigits? t
  else ((Text.splitOn ',' t).mapM ofPart?).map List.flatten

/-- The executable bit after a change. -/
def apply (m : Mode) (executable : Bool) : Bool :=
  m.foldl (fun x change =>
    match change with
    | .keep | .ifExecutable => x
    | .set y => y) executable

end Mode

/-- An argument that starts with a dash and is a mode all the same. -/
def isDashedMode (a : Octets) : Bool :=
  match a with
  | '-' :: c :: _ => "rwxXst".toList.contains c && (Mode.ofOctets? a).isSome
  | _ => false

/-- Changes the modes of the files at and below a path. -/
def changeMode (m : Mode) (recursive : Bool) (p : Path) : Act Unit := Act.modifyTree fun t =>
  t.map fun (q, e) =>
    if q == p || (recursive && (p.below? q).isSome) then
      match e with
      | .file c x => (q, .file c (m.apply x))
      | .directory => (q, .directory)
    else (q, e)

def chmodOptions : OptionTable := .ofString "Rvcf"
  [("recursive", 'R'), ("verbose", 'v'), ("changes", 'c'), ("quiet", 'f'), ("silent", 'f')] true

def chmod : Program := fun _ arguments =>
  -- A mode may look like an option; it is taken out before the options are read.
  let dashed := arguments.find? isDashedMode
  let arguments := match dashed with
    | some d => arguments.filter (· != d)
    | none => arguments
  withOptions "chmod" 1 chmodOptions (fun o operands => do
    let change (mode : Octets) (names : List Octets) : Act Nat := do
      if names.isEmpty then misuse "chmod" 1 ("missing operand after ".toList ++ quoted mode)
      else match Mode.ofOctets? mode with
        | none => misuse "chmod" 1 ("invalid mode: ".toList ++ quoted mode)
        | some m => eachOperand names fun name => do
          let refuse (reason : String) : Act Bool := do
            if !o.has 'f' then complainAbout "chmod" "cannot access" name reason
            return false
          match (← get).locate name with
          | .error e => refuse e.reason
          | .ok p =>
            if ((← Act.tree).get? p).isNone then refuse IoError.notFound.reason
            else
              changeMode m (o.has 'R') p
              return true
    match dashed, operands with
    | some d, names => change d names
    | none, mode :: names => change mode names
    | none, [] => misuse "chmod" 1 "missing operand".toList) arguments

/-! ### Directories -/

def mkdirOptions : OptionTable := .ofString "pm:v" [("parents", 'p'), ("mode", 'm'), ("verbose", 'v')] true

/-- Creates one directory. -/
def createDirectory (o : Options) (name : Octets) : Act (Except IoError Unit) := do
  match (← get).locate (Path.withoutSlashes name) with
  | .error e => return .error e
  | .ok p =>
    if ((← Act.tree).get? p).isSome then return .error .alreadyExists
    Act.modifyTree (·.put p .directory)
    if o.has 'v' then writeLine ("mkdir: created directory ".toList ++ quoted name)
    return .ok ()

/-- The beginnings of a name, each with one more part. -/
def beginnings (name : Octets) : List Octets :=
  let parts := Text.splitOn '/' (Path.withoutSlashes name)
  ((List.range parts.length).map fun n => Text.join ['/'] (parts.take (n + 1))).filter (!·.isEmpty)

/-- Creates a directory and those above it. -/
def createDirectories (o : Options) (name : Octets) : Act Bool := do
  if name.isEmpty then
    complainAbout "mkdir" "cannot create directory" name IoError.notFound.reason
    return false
  let all := beginnings name
  for part in all do
    match ← createDirectory o part with
    | .ok () => pure ()
    | .error e =>
      let entry := (← get).entryAt? part
      if !(entry matches .ok (some .directory)) then
        let reason := if e = .alreadyExists && all.getLast? != some part then IoError.notDirectory.reason else e.reason
        complainAbout "mkdir" "cannot create directory" part reason
        return false
  return true

def mkdir : Program := fun _ => withOptions "mkdir" 1 mkdirOptions fun o operands => do
  if operands.isEmpty then misuse "mkdir" 1 "missing operand".toList
  else match (o.value? 'm').filter fun m => (Mode.ofOctets? m).isNone with
    | some m =>
      complain "mkdir" ("invalid mode ".toList ++ quoted m)
      return 1
    | none => eachOperand operands fun name => do
      if o.has 'p' then createDirectories o name
      else match ← createDirectory o name with
        | .ok () => return true
        | .error e =>
          complainAbout "mkdir" "cannot create directory" name e.reason
          return false

/-! ### Files -/

def touchOptions : OptionTable := .ofString "acd:fhmr:t:"
  [("no-create", 'c'), ("date", 'd'), ("reference", 'r'), ("time", 'h'), ("no-dereference", 'h')] true

def touch : Program := fun _ => withOptions "touch" 1 touchOptions fun o operands => do
  if operands.isEmpty then misuse "touch" 1 "missing file operand".toList
  else eachOperand operands fun name => do
    let refuse (what : String) (e : IoError) : Act Bool := do
      complainAbout "touch" what name e.reason
      return false
    match (← get).place name with
    | .error e =>
      if o.has 'c' && e = .notFound then return true
      else if Path.endsInSlash name && e = .notFound then refuse "setting times of" e
      else refuse "cannot touch" e
    | .ok (.path p) =>
      if ((← Act.tree).get? p).isNone && !o.has 'c' then Act.modifyTree (·.put p (.file (.text []) false))
      return true
    | .ok _ => return true

def truncateOptions : OptionTable := .ofString "cos:r:"
  [("no-create", 'c'), ("io-blocks", 'o'), ("size", 's'), ("reference", 'r')] true

/-- The number of bytes that a size is, with a letter for its unit. -/
def sizeOf? (t : Octets) : Option Nat :=
  let digits := t.takeWhile Char.isDigit
  if digits.isEmpty then none
  else
    let n := Octets.natOf 10 digits
    match String.ofList (t.drop digits.length) with
    | "" => some n
    | "b" => some (n * 512)
    | "K" | "k" | "KiB" => some (n * 1024)
    | "kB" | "KB" => some (n * 1000)
    | "M" | "MiB" => some (n * 1048576)
    | "MB" => some (n * 1000000)
    | _ => none

/-- A text cut or filled with zeros to a number of bytes. -/
def resized (n : Nat) (o : Octets) : Octets := o.take n ++ List.replicate (n - o.length) (Char.ofNat 0)

def truncate : Program := fun _ => withOptions "truncate" 1 truncateOptions fun o operands => do
  match o.value? 's' with
  | none => misuse "truncate" 1 "you must specify either '--size' or '--reference'".toList
  | some size =>
    let (sign, digits) : Char × Octets := match size with
      | c :: t => if c.isDigit then ('=', size) else (c, t)
      | [] => ('=', [])
    match sizeOf? digits with
    | none =>
      complain "truncate" ("Invalid number: ".toList ++ quoted size)
      return 1
    | some n =>
      if operands.isEmpty then misuse "truncate" 1 "missing file operand".toList
      else eachOperand operands fun name => do
        let old : Octets := match ← Act.contents name with
          | .ok old => old
          | .error _ => []
        let m := match sign with
          | '+' => old.length + n
          | '-' => old.length - n
          | '<' => min old.length n
          | '>' => max old.length n
          | _ => n
        if o.has 'c' && !((← get).entryAt? name matches .ok (some _)) then return true
        match ← replaceFile name (resized m old) with
        | .ok () => return true
        | .error e =>
          complainAbout "truncate" "cannot open" name (e.reason ++ " for writing")
          return false

end Graft.Shell.Tool
