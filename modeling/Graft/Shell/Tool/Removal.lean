/-
Tools that remove files and directories.

Main statements: `Tool.rm`, `Tool.rmdir`, `Tool.unlink`, `isDotted_iff` (which names are refused).
-/
import Graft.Shell.Program

namespace Graft.Shell.Tool

open Program

/-! ### Names -/

/-- The last part of a name, without the slashes behind it. -/
def lastPart (name : Octets) : Octets :=
  let name := Path.withoutSlashes name
  (Text.afterLast? '/' name).getD name

/-- The name leads to a directory by one or two dots. -/
def isDotted (name : Octets) : Bool := lastPart name == ['.'] || lastPart name == ['.', '.']

theorem isDotted_iff (name : Octets) :
    isDotted name = true ↔ lastPart name = ['.'] ∨ lastPart name = ['.', '.'] := by
  simp [isDotted]

/-- The paths below a directory, the deepest first, and the directory at last. -/
def contentsFirst (tree : FileTree) (p : Path) : List Path :=
  (sortBy Path.le ((tree.filter fun e => (p.below? e.1).isSome).map Prod.fst)).reverse

/-- Nothing is in a directory. -/
def isEmptyDirectory (tree : FileTree) (p : Path) : Bool := (contentsFirst tree p).all (· == p)

/-- Takes the path and all that is below it out of the tree. -/
def eraseAll (p : Path) : Act Unit := Act.modifyTree fun t => t.filter fun e => (p.below? e.1).isNone

/-! ### Files and directories -/

def rmOptions : OptionTable := .ofString "dfiIrRv"
  [("force", 'f'), ("recursive", 'r'), ("dir", 'd'), ("verbose", 'v'), ("interactive", 'I'), ("one-file-system", 'I'),
    ("no-preserve-root", 'I'), ("preserve-root", 'I')] true

/-- Tells what was removed. -/
def reportRemoval (name : Octets) (isDirectory : Bool) : Act Unit :=
  writeLine ((if isDirectory then "removed directory " else "removed ").toList ++ quoted name)

def removeOperand (o : Options) (name : Octets) : Act Bool := do
  let all := o.has 'r' || o.has 'R'
  let refuse (reason : String) : Act Bool := do
    complainAbout "rm" "cannot remove" name reason
    return false
  if all && isDotted name then
    complain "rm" ("refusing to remove '.' or '..' directory: skipping ".toList ++ quoted name)
    return false
  let tree ← Act.tree
  match (← get).locate name with
  | .error e =>
    if o.has 'f' && (e = .notFound || e = .notDirectory) then return true else refuse e.reason
  | .ok p =>
    match tree.get? p with
    | none => if o.has 'f' then return true else refuse IoError.notFound.reason
    | some .directory =>
      if all && p = Path.root then
        complain "rm" "it is dangerous to operate recursively on '/'".toList
        complain "rm" "use --no-preserve-root to override this failsafe".toList
        return false
      if !all && !o.has 'd' then refuse IoError.isDirectory.reason
      else if !all && !isEmptyDirectory tree p then refuse "Directory not empty"
      else
        if o.has 'v' then
          for q in contentsFirst tree p do
            let rest := (p.below? q).getD []
            reportRemoval (name ++ rest.flatMap fun part => '/' :: Octets.ofText part)
              (tree.get? q matches some .directory)
        eraseAll p
        return true
    | some (.file ..) =>
      Act.modifyTree (·.erase p)
      if o.has 'v' then reportRemoval name false
      return true

def rm : Program := fun _ => withOptions "rm" 1 rmOptions fun o operands => do
  if operands.isEmpty && !o.has 'f' then misuse "rm" 1 "missing operand".toList
  else eachOperand operands (removeOperand o)

/-! ### Directories -/

def rmdirOptions : OptionTable := .ofString "pvi"
  [("parents", 'p'), ("verbose", 'v'), ("ignore-fail-on-non-empty", 'i')] true

/-- Removes an empty directory. -/
def removeDirectory (o : Options) (what : String) (name : Octets) : Act Bool := do
  let refuse (reason : String) : Act Bool := do
    complainAbout "rmdir" what name reason
    return false
  if lastPart name = ['.'] then refuse "Invalid argument"
  else match (← get).locate name with
    | .error e => refuse e.reason
    | .ok p =>
      let tree ← Act.tree
      match tree.get? p with
      | none => refuse IoError.notFound.reason
      | some (.file ..) => refuse IoError.notDirectory.reason
      | some .directory =>
        if isEmptyDirectory tree p then
          if o.has 'v' then writeLine ("rmdir: removing directory, ".toList ++ quoted name)
          Act.modifyTree (·.erase p)
          return true
        else if o.has 'i' then return true
        else refuse "Directory not empty"

/-- The names of the directories above a name, from the nearest on. -/
def namesAbove (name : Octets) : List Octets :=
  let parts := Text.splitOn '/' (Path.withoutSlashes name)
  ((List.range parts.length).map fun n => Text.join ['/'] (parts.take n)).reverse.filter (!·.isEmpty)

def rmdir : Program := fun _ => withOptions "rmdir" 1 rmdirOptions fun o operands => do
  if operands.isEmpty then misuse "rmdir" 1 "missing operand".toList
  else eachOperand operands fun name => do
    let mut fine ← removeDirectory o "failed to remove" name
    if o.has 'p' then
      for above in namesAbove name do
        if fine then fine ← removeDirectory o "failed to remove directory" above
    return fine

def unlink : Program := fun _ => withOptions "unlink" 1 (.ofString "" [] true) fun _ operands => do
  match operands with
  | [] => misuse "unlink" 1 "missing operand".toList
  | [name] =>
    let refuse (reason : String) : Act Nat := do
      complainAbout "unlink" "cannot unlink" name reason
      return 1
    match (← get).locate name with
    | .error e => refuse e.reason
    | .ok p =>
      match (← Act.tree).get? p with
      | none => refuse IoError.notFound.reason
      | some .directory => refuse IoError.isDirectory.reason
      | some (.file ..) =>
        Act.modifyTree (·.erase p)
        return 0
  | _ :: extra :: _ => misuse "unlink" 1 ("extra operand ".toList ++ quoted extra)

end Graft.Shell.Tool
