/-
A tool that lists directories.

Main statements: `Tool.ls`, `Listing.ordered_perm` (every entry is listed once).
-/
import Graft.Shell.Tool.Names
import Graft.Shell.Wildcard

namespace Graft.Shell.Tool

open Program

/-! ### Entries -/

/-- A name with what is at it. -/
structure Listed where
  name : Octets
  path : Path
  entry : Entry

namespace Listed

def size (l : Listed) : Nat :=
  match l.entry with
  | .directory => 4096
  | .file c _ => (Act.contentOf c).length

/-- The sign behind a name that tells what it is. -/
def mark (o : Options) (l : Listed) : Octets :=
  match l.entry with
  | .directory => if o.has 'F' || o.has 'p' then ['/'] else []
  | .file _ executable => if o.has 'F' && executable then ['*'] else []

/-- The space on the disk, in blocks. -/
def blocks (l : Listed) : Nat := (l.size + 4095) / 4096 * 4

/-- The line with all that is known of an entry. -/
def longLine (o : Options) (width : Nat) (l : Listed) : Octets :=
  let mode := match l.entry with
    | .directory => "drwxr-xr-x 2"
    | .file _ true => "-rwxr-xr-x 1"
    | .file _ false => "-rw-r--r-- 1"
  mode.toList ++ " root root ".toList ++ Octets.padLeft width (Text.ofNat l.size) ++ " Jan  1 00:00 ".toList ++
    l.name ++ l.mark o

end Listed

namespace Listing

/-- Entries in the order that options ask for. -/
def ordered (o : Options) (ls : List Listed) : List Listed :=
  if o.has 'U' || o.has 'f' then ls
  else
    let byName (a b : Listed) : Bool := a.name.le b.name
    let bySize (a b : Listed) : Bool := a.size > b.size || (a.size = b.size && byName a b)
    let sorted := sortBy (if o.has 'S' then bySize else byName) ls
    if o.has 'r' then sorted.reverse else sorted

/-- Every entry is listed once. -/
theorem ordered_perm (o : Options) (ls : List Listed) : (ordered o ls).Perm ls := by
  unfold ordered
  split
  · exact .refl _
  · dsimp only
    split
    · exact (List.reverse_perm _).trans (sortBy_perm _ ls)
    · exact sortBy_perm _ ls

/-- The text of a list of entries. -/
def shown (o : Options) (ls : List Listed) : Octets :=
  let names := ls.map fun l => l.name ++ l.mark o
  if o.has 'l' || o.has 'n' || o.has 'g' then
    let width := (ls.map fun l => (Text.ofNat l.size).length).foldl max 0
    Octets.unlines (ls.map (Listed.longLine o width))
  else if (o.last? "1mCx") = some 'm' then
    if names.isEmpty then [] else Text.join [',', ' '] names ++ ['\n']
  else if (o.last? "1mCx").any fun c => c == 'C' || c == 'x' then
    if names.isEmpty then [] else Text.join [' ', ' '] names ++ ['\n']
  else Octets.unlines names

/-- The names in a directory that are listed. -/
def children (o : Options) (tree : FileTree) (dir : Path) : List Listed :=
  let inside := tree.filterMap fun (p, e) =>
    match dir.below? p with
    | some [part] => some ⟨Octets.ofText part, p, e⟩
    | _ => none
  let dots : List Listed := [⟨['.'], dir, .directory⟩, ⟨['.', '.'], dir.up, .directory⟩]
  let ignored (name : Octets) : Bool :=
    (o.values 'I').any (fun g => Wildcard.fits (Wildcard.ofOctets g) name) || (o.has 'B' && name.getLast? = some '~')
  if o.has 'a' || o.has 'f' then dots ++ inside
  else inside.filter fun l => (o.has 'A' || l.name.head? != some '.') && !ignored l.name

/-- The text of a directory. -/
def directory (o : Options) (tree : FileTree) (dir : Path) : Octets :=
  let ls := ordered o (children o tree dir)
  let total := "total ".toList ++ Text.ofNat ((ls.map Listed.blocks).foldl (· + ·) 0) ++ ['\n']
  (if o.has 'l' || o.has 's' then total else []) ++ shown o ls

/-- The directories that are listed for one that is named: itself, and on demand all below it. -/
def directories (o : Options) (tree : FileTree) (l : Listed) : List (Octets × Path) :=
  if o.has 'R' then
    let isHidden (name : Octets) : Bool :=
      (Text.splitOn '/' (name.drop l.name.length)).any (·.head? = some '.') && !(o.has 'a' || o.has 'A')
    (namesBelow tree l.name l.path).filterMap fun (name, p, e) =>
      if e.isDirectory && !isHidden name then some (name, p) else none
  else [(l.name, l.path)]

end Listing

def lsOptions : OptionTable := .ofString "aAbBcCdfFgGhiI:klLmnNopqQrRsStT:uUvw:xXZ1"
  [("all", 'a'), ("almost-all", 'A'), ("directory", 'd'), ("recursive", 'R'), ("reverse", 'r'), ("classify", 'F'),
    ("ignore", 'I'), ("ignore-backups", 'B'), ("size", 's'), ("human-readable", 'h'), ("inode", 'i')] true

def ls : Program := fun _ => withOptions "ls" 2 lsOptions fun o operands => do
  let mut status := 0
  let mut files : List Listed := []
  let mut dirs : List Listed := []
  let tree ← Act.tree
  let names := if operands.isEmpty then [['.']] else operands
  for name in names do
    let refuse (reason : String) : Act Unit := complainAbout "ls" "cannot access" name reason
    match (← get).place name with
    | .error e =>
      refuse e.reason
      status := 2
    | .ok (.path p) =>
      match tree.get? p with
      | none =>
        refuse IoError.notFound.reason
        status := 2
      | some e =>
        if e.isDirectory && !o.has 'd' then dirs := dirs ++ [⟨name, p, e⟩] else files := files ++ [⟨name, p, e⟩]
    | .ok _ => files := files ++ [⟨name, [], .file (.text []) false⟩]
  Act.write 1 (Listing.shown o (Listing.ordered o files))
  let all := (Listing.ordered o dirs).flatMap (Listing.directories o tree)
  let headed := names.length > 1 || o.has 'R'
  for ((name, p), i) in all.zipIdx do
    let gap := if i > 0 || !files.isEmpty then ['\n'] else []
    Act.write 1 ((if headed then gap ++ name ++ [':', '\n'] else []) ++ Listing.directory o tree p)
  return status

end Graft.Shell.Tool
