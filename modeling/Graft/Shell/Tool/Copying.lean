/-
Tools that copy and move files and directories.

Main statements: `Tool.cp`, `Tool.mv`, `Tool.ln`, `moved_nil` (a move takes nothing away that is not below its source).
-/
import Graft.Shell.Tool.Removal

namespace Graft.Shell.Tool

open Program

/-! ### Operands -/

/-- What a tool does with one source and one target. -/
abbrev Transfer := Octets → Octets → Act Bool

/-- The name that a source gets in a directory. -/
def nameIn (dir source : Octets) : Octets := Path.withoutSlashes dir ++ '/' :: lastPart source

/-- A name that leads to a directory. -/
def isDirectoryName (name : Octets) : Act Bool := do
  return (← get).entryAt? name matches .ok (some .directory)

/-- Why a name is no directory. -/
def reasonOf (name : Octets) : Act String := do
  match (← get).entryAt? name with
  | .error e => return e.reason
  | .ok none => return IoError.notFound.reason
  | .ok (some _) => return IoError.notDirectory.reason

/-- Transfers sources into a directory. -/
def intoDirectory (transfer : Transfer) (dir : Octets) (sources : List Octets) : Act Nat :=
  eachOperand sources fun s => transfer s (nameIn dir s)

/-- Transfers by the rules that the tools have in common: the last operand is the target, or an option names the
directory. -/
def distribute (program : String) (o : Options) (transfer : Transfer) (operands : List Octets) : Act Nat := do
  match o.value? 't' with
  | some dir =>
    if operands.isEmpty then misuse program 1 "missing file operand".toList
    else if ← isDirectoryName dir then intoDirectory transfer dir operands
    else
      complainAbout program "target directory" dir (← reasonOf dir)
      return 1
  | none =>
    match operands.reverse with
    | [] => misuse program 1 "missing file operand".toList
    | [a] => misuse program 1 ("missing destination file operand after ".toList ++ quoted a)
    | [target, source] =>
      if !o.has 'T' && (← isDirectoryName target) then intoDirectory transfer target [source]
      else return if ← transfer source target then 0 else 1
    | target :: extra :: sources =>
      if o.has 'T' then misuse program 1 ("extra operand ".toList ++ quoted target)
      else if ← isDirectoryName target then intoDirectory transfer target (extra :: sources).reverse
      else
        complainAbout program "target" target (← reasonOf target)
        return 1

/-- Complains with two names. -/
def complainOfBoth (program before between after : String) (a b : Octets) : Act Bool := do
  complain program (before.toList ++ quoted a ++ between.toList ++ quoted b ++ after.toList)
  return false

/-- The path and the entry of a source, after a complaint if there is none. -/
def source? (program : String) (name : Octets) : Act (Option (Path × Entry)) := do
  let refuse (e : IoError) : Act (Option (Path × Entry)) := do
    complainAbout program "cannot stat" name e.reason
    return none
  match (← get).locate name with
  | .error e => refuse e
  | .ok p =>
    match (← Act.tree).get? p with
    | none => refuse .notFound
    | some e => return some (p, e)

/-! ### Copies -/

def cpOptions : OptionTable := .ofString "abdfHilLnpPrRsS:t:TuvxZkg"
  [("archive", 'a'), ("force", 'f'), ("interactive", 'i'), ("link", 'l'), ("no-clobber", 'n'), ("recursive", 'r'),
    ("target-directory", 't'), ("no-target-directory", 'T'), ("update", 'u'), ("verbose", 'v'), ("preserve", 'p'),
    ("no-preserve", 'x'), ("dereference", 'L'), ("no-dereference", 'P'), ("parents", 'k'), ("symbolic-link", 's'),
    ("remove-destination", 'g'), ("one-file-system", 'x')] true

/-- The name of a path below a name. -/
def nameBelow (name : Octets) (rest : Path) : Octets := name ++ rest.flatMap fun part => '/' :: Octets.ofText part

/-- Copies one entry to a path. -/
def copyEntry (o : Options) (sourceName targetName : Octets) (e : Entry) (target : Path) : Act Bool := do
  let told : Act Unit := do
    if o.has 'v' then writeLine (quoted sourceName ++ " -> ".toList ++ quoted targetName)
  match e, (← Act.tree).get? target with
  | .directory, some .directory => return true
  | .directory, some (.file ..) =>
    complainOfBoth "cp" "cannot overwrite non-directory " " with directory " "" targetName sourceName
  | .directory, none =>
    Act.modifyTree (·.put target .directory)
    told
    return true
  | .file .., some .directory =>
    complain "cp" ("cannot overwrite directory ".toList ++ quoted targetName ++ " with non-directory".toList)
    return false
  | .file c x, some (.file _ y) =>
    if o.has 'n' || o.has 'u' then return true
    Act.modifyTree (·.put target (.file c (if o.has 'p' || o.has 'a' then x else y)))
    told
    return true
  | .file c x, none =>
    Act.modifyTree (·.put target (.file c x))
    told
    return true

/-- Copies a directory with all that is in it.  A copy that lies in the directory is not copied again. -/
def copyDirectory (o : Options) (sourceName targetName : Octets) (p target : Path) : Act Bool := do
  let entries := (← Act.tree).filter fun e => (p.below? e.1).isSome && (target.below? e.1).isNone && e.1 != p
  let mut fine ← copyEntry o sourceName targetName .directory target
  if !fine then return false
  for (q, e) in sortBy (fun a b => Path.le a.1 b.1) entries do
    let rest := (p.below? q).getD []
    -- What could not be created has nothing below it.
    if (← Act.tree).get? (target ++ rest.dropLast) matches some .directory then
      if !(← copyEntry o (nameBelow sourceName rest) (nameBelow targetName rest) e (target ++ rest)) then fine := false
  if (p.below? target).isSome then
    let _ ← complainOfBoth "cp" "cannot copy a directory, " ", into itself, " "" sourceName targetName
    fine := false
  return fine

def copyOperand (o : Options) : Transfer := fun sourceName targetName => do
  let recursive := o.has 'r' || o.has 'R' || o.has 'a'
  match ← source? "cp" sourceName with
  | none => return false
  | some (_, .directory) =>
    if !recursive then
      complain "cp" ("-r not specified; omitting directory ".toList ++ quoted sourceName)
      return false
    match ← source? "cp" sourceName, (← get).locate (Path.withoutSlashes targetName) with
    | some (p, _), .ok target => copyDirectory o (Path.withoutSlashes sourceName) (Path.withoutSlashes targetName) p target
    | _, .error e =>
      complainAbout "cp" "cannot create directory" targetName e.reason
      return false
    | none, _ => return false
  | some (p, e) =>
    let refuse (e : IoError) : Act Bool := do
      complainAbout "cp" "cannot create regular file" targetName e.reason
      return false
    if Path.endsInSlash targetName && ((← get).locate targetName).toOption.isNone &&
        ((← get).locate (Path.withoutSlashes targetName)).toOption.isSome then refuse .notDirectory
    else match (← get).place targetName with
      | .error e => refuse e
      | .ok (.path target) =>
        if target = p then complainOfBoth "cp" "" " and " " are the same file" sourceName targetName
        else copyEntry o sourceName targetName e target
      | .ok .sink => return true
      | .ok (.descriptor d) =>
        match e with
        | .file c _ => Act.write d (Act.contentOf c)
        | .directory => pure ()
        return true

/-- Copies an operand under its whole name. -/
def copyWithParents (o : Options) (dir sourceName : Octets) : Act Bool := do
  let above := (Text.splitOn '/' sourceName).dropLast.filter (!·.isEmpty)
  for n in List.range above.length do
    match (← get).locate (nameBelow (Path.withoutSlashes dir) (above.take (n + 1))) with
    | .ok p => if ((← Act.tree).get? p).isNone then Act.modifyTree (·.put p .directory)
    | .error _ => pure ()
  copyOperand o sourceName (Path.withoutSlashes dir ++ '/' :: sourceName)

def cp : Program := fun _ => withOptions "cp" 1 cpOptions fun o operands => do
  if o.has 'n' then
    complain "cp" ("warning: behavior of -n is non-portable and may change in future; " ++
      "use --update=none instead").toList
  match o.has 'k', operands.getLast? with
  | true, some dir =>
    if ← isDirectoryName dir then eachOperand operands.dropLast (copyWithParents o dir)
    else misuse "cp" 1 "with --parents, the destination must be a directory".toList
  | _, _ => distribute "cp" o (copyOperand o) operands

/-! ### Moves -/

def mvOptions : OptionTable := .ofString "bfinS:t:TuvZ"
  [("force", 'f'), ("interactive", 'i'), ("no-clobber", 'n'), ("target-directory", 't'), ("no-target-directory", 'T'),
    ("update", 'u'), ("verbose", 'v')] true

/-- The tree with everything at and below a path under another. -/
def moved (p target : Path) (t : FileTree) : FileTree :=
  (t.filter fun e => (target.below? e.1).isNone || (p.below? e.1).isSome).map fun (q, e) =>
    match p.below? q with
    | some rest => (target ++ rest, e)
    | none => (q, e)

theorem moved_nil (p target : Path) : moved p target [] = [] := rfl

def moveOperand (o : Options) : Transfer := fun sourceName targetName => do
  match ← source? "mv" sourceName with
  | none => return false
  | some (p, e) =>
    let refuse (reason : String) : Act Bool :=
      complainOfBoth "mv" "cannot move " " to " (": " ++ reason) sourceName targetName
    let isDirectory := e.isDirectory
    if isDotted sourceName then refuse "Device or resource busy"
    else if Path.endsInSlash targetName && !isDirectory && ((← get).locate targetName).toOption.isNone then
      refuse IoError.notDirectory.reason
    else match (← get).locate (Path.withoutSlashes targetName) with
      | .error e => refuse e.reason
      | .ok target =>
        let tree ← Act.tree
        let go : Act Bool := do
          Act.modifyTree (moved p target)
          if o.has 'v' then writeLine ("renamed ".toList ++ quoted sourceName ++ " -> ".toList ++ quoted targetName)
          return true
        if target = p then
          complainOfBoth "mv" "" " and " " are the same file" sourceName targetName
        else if isDirectory && (p.below? target).isSome then
          complainOfBoth "mv" "cannot move " " to a subdirectory of itself, " "" sourceName targetName
        else match isDirectory, tree.get? target with
          | _, none => go
          | true, some (.file ..) =>
            complainOfBoth "mv" "cannot overwrite non-directory " " with directory " "" targetName sourceName
          | false, some .directory =>
            complain "mv" ("cannot overwrite directory ".toList ++ quoted targetName ++ " with non-directory".toList)
            return false
          | true, some .directory =>
            if isEmptyDirectory tree target then go
            else
              complainAbout "mv" "cannot overwrite" targetName "Directory not empty"
              return false
          | false, some (.file ..) =>
            if o.last? "fin" = some 'n' then
              complain "mv" ("not replacing ".toList ++ quoted targetName)
              return false
            else if o.has 'u' then return true
            else go

def mv : Program := fun _ => withOptions "mv" 1 mvOptions fun o operands => distribute "mv" o (moveOperand o) operands

/-! ### Links -/

def lnOptions : OptionTable := .ofString "bdfFiLnPrsS:t:Tv"
  [("force", 'f'), ("symbolic", 's'), ("no-dereference", 'n'), ("target-directory", 't'), ("no-target-directory", 'T'),
    ("verbose", 'v'), ("relative", 'r'), ("interactive", 'i')] true

/-- Puts the content of a file under a second name. -/
def linkOperand (o : Options) : Transfer := fun sourceName targetName => do
  let failed (reason : String) : Act Bool := do
    complainAbout "ln" (if o.has 's' then "failed to create symbolic link" else "failed to create hard link") targetName
      reason
    return false
  match (← get).entryAt? sourceName with
  | .error e =>
    complainAbout "ln" "failed to access" sourceName e.reason
    return false
  | .ok none =>
    complainAbout "ln" "failed to access" sourceName IoError.notFound.reason
    return false
  | .ok (some .directory) =>
    complain "ln" (quotedIfNeeded sourceName ++ ": hard link not allowed for directory".toList)
    return false
  | .ok (some e) =>
    match (← get).locate targetName with
    | .error e => failed e.reason
    | .ok target =>
      if ((← Act.tree).get? target).isSome && !o.has 'f' then failed IoError.alreadyExists.reason
      else
        Act.modifyTree (·.put target e)
        if o.has 'v' then writeLine (quoted targetName ++ " => ".toList ++ quoted sourceName)
        return true

def ln : Program := fun _ => withOptions "ln" 1 lnOptions fun o operands =>
  match o.has 't', operands with
  | false, [source] => intoDirectory (linkOperand o) ['.'] [source]
  | _, _ => distribute "ln" o (linkOperand o) operands

end Graft.Shell.Tool
