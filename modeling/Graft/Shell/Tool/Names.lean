/-
Tools that work on the names of files.

Main statements: `Tool.basename`, `Tool.dirname`, `Tool.realpath`, `Tool.pwd`, `Tool.which`,
`directoryOf_single` (a name without a slash lies in the present directory).
-/
import Graft.Shell.Tool.Removal

namespace Graft.Shell.Tool

open Program

/-! ### Parts of names -/

/-- The last part of a name; of slashes only, one is left. -/
def baseOf (name : Octets) : Octets :=
  if !name.isEmpty && name.all (· == '/') then ['/'] else lastPart name

/-- The name without a suffix, unless nothing would be left. -/
def withoutSuffix (suffix name : Octets) : Octets :=
  match Text.strip? suffix.reverse name.reverse with
  | some (c :: t) => if suffix.isEmpty then name else (c :: t).reverse
  | _ => name

/-- The directory in which a name lies. -/
def directoryOf (name : Octets) : Octets :=
  let body := Path.withoutSlashes name
  let front := (body.reverse.dropWhile (· != '/')).reverse
  if body.isEmpty then (if name.isEmpty then ['.'] else ['/'])
  else if front.isEmpty then ['.']
  else if (Path.withoutSlashes front).isEmpty then ['/']
  else Path.withoutSlashes front

/-- A name without a slash lies in the present directory. -/
theorem directoryOf_single : directoryOf "name".toList = ['.'] := by decide +kernel

def basenameOptions : OptionTable := .ofString "as:z" [("multiple", 'a'), ("suffix", 's'), ("zero", 'z')] false

def basename : Program := fun _ => withOptions "basename" 1 basenameOptions fun o operands => do
  let shown (suffix name : Octets) : Act Unit :=
    Act.write 1 (withoutSuffix suffix (baseOf name) ++ [if o.has 'z' then Char.ofNat 0 else '\n'])
  match operands with
  | [] => misuse "basename" 1 "missing operand".toList
  | names =>
    if o.has 'a' || o.has 's' then
      for name in names do shown ((o.value? 's').getD []) name
      return 0
    else match names with
      | _ :: _ :: extra :: _ => misuse "basename" 1 ("extra operand ".toList ++ quoted extra)
      | name :: rest =>
        shown (rest.headD []) name
        return 0
      | [] => return 0

def dirname : Program := fun _ =>
  withOptions "dirname" 1 (.ofString "z" [("zero", 'z')] true) fun o operands => do
    if operands.isEmpty then misuse "dirname" 1 "missing operand".toList
    else
      for name in operands do Act.write 1 (directoryOf name ++ [if o.has 'z' then Char.ofNat 0 else '\n'])
      return 0

/-! ### Names below a directory -/

/-- What is at a path and below it, in order, under names that begin with the name of the path. -/
def namesBelow (tree : FileTree) (name : Octets) (p : Path) : List (Octets × Path × Entry) :=
  let below := tree.filterMap fun (q, e) =>
    match p.below? q with
    | some [] => none
    | some rest => if rest.isInside then some (rest, q, e) else none
    | none => none
  let under (rest : Path) : Octets :=
    (if name.getLast? = some '/' then name else name ++ ['/']) ++ Text.join ['/'] (rest.map Octets.ofText)
  let own := match tree.get? p with
    | some e => [(name, p, e)]
    | none => []
  own ++ (sortBy (fun a b => Path.le a.1 b.1) below).map fun (rest, q, e) => (under rest, q, e)

/-! ### Full names -/

def pwd : Program := fun _ =>
  withOptions "pwd" 1 (.ofString "LP" [("logical", 'L'), ("physical", 'P')] true) fun _ operands => do
    if !operands.isEmpty then complain "pwd" "ignoring non-option arguments".toList
    writeLine (fullName (← Act.env).dir)
    return 0

def realpathOptions : OptionTable := .ofString "emsqzLP"
  [("canonicalize-existing", 'e'), ("canonicalize-missing", 'm'), ("no-symlinks", 's'), ("quiet", 'q'), ("zero", 'z')] true

def realpath : Program := fun _ => withOptions "realpath" 1 realpathOptions fun o operands => do
  if operands.isEmpty then misuse "realpath" 1 "missing operand".toList
  else eachOperand operands fun name => do
    let refuse (reason : String) : Act Bool := do
      if !o.has 'q' then complain "realpath" (quotedIfNeeded name ++ [':', ' '] ++ reason.toList)
      return false
    match (← get).locate name with
    | .ok p =>
      if o.has 'e' && ((← Act.tree).get? p).isNone then refuse IoError.notFound.reason
      else
        Act.write 1 (fullName p ++ [if o.has 'z' then Char.ofNat 0 else '\n'])
        return true
    | .error e => refuse (if name.isEmpty then IoError.notFound.reason else e.reason)

/-- No file leads to another one; only with `-f` a name is followed to itself. -/
def readlink : Program := fun _ =>
  withOptions "readlink" 1 (.ofString "efmnqsvz" [("canonicalize", 'f'), ("no-newline", 'n')] true) fun o operands => do
    if operands.isEmpty then misuse "readlink" 1 "missing operand".toList
    else eachOperand operands fun name => do
      match (← get).locate name with
      | .ok p =>
        if o.has 'f' || o.has 'm' || (o.has 'e' && ((← Act.tree).get? p).isSome) then
          Act.write 1 (fullName p ++ if o.has 'n' then [] else ['\n'])
          return true
        else return false
      | .error _ => return false

/-- Names the files that would run under some names. -/
def which : Program := fun host =>
  withOptions "which" 2 (.ofString "as" [] false) fun _ operands => do
    if operands.isEmpty then return 1
    else eachOperand operands fun name => do
      match ← host.find name with
      | .ok full =>
        writeLine full
        return true
      | .error _ => return false

end Graft.Shell.Tool
