/-
Trees of files.

A tree maps paths to directories and files.  Access to a path fails where a directory above it is missing or is a
file.

Main statements: `get?_put_self`, `get?_put_of_ne`, `FileTree.locate`, `FileTree.readText`, `FileTree.writeText`,
`FileTree.copy`, `FileTree.changes`, `instance : Disk (StateM FileTree)` (files of a tree instead of those of a machine).
-/
import Graft.Edit.Error
import Graft.Project.Path
import Graft.Sorting

namespace Graft

/-! ### Entries -/

/-- What a file holds. -/
inductive Content where
  | text (t : Text)
  /-- Bytes that are not text. -/
  | binary (bytes : List UInt8)
deriving DecidableEq, Repr

namespace Content

/-- The content of a file with the given bytes. -/
def ofBytes (bytes : List UInt8) : Content :=
  match String.fromUTF8? ⟨bytes.toArray⟩ with
  | some s => text s.toList
  | none => binary bytes

def toBytes : Content → List UInt8
  | text t => (String.ofList t).toUTF8.toList
  | binary bytes => bytes

end Content

inductive Entry where
  | directory
  | file (content : Content) (executable : Bool)
deriving DecidableEq, Repr

def Entry.isDirectory : Entry → Bool
  | directory => true
  | file .. => false

/-- Entries with their paths. -/
abbrev FileTree := List (Path × Entry)

namespace FileTree

/-! ### Paths and entries -/

/-- What is at a path.  The directory of the project and those above it always are. -/
def get? (t : FileTree) (p : Path) : Option Entry :=
  if p.isAbove then some .directory else (t.find? fun e => e.1 == p).map Prod.snd

/-- The tree with an entry at a path. -/
def put (p : Path) (e : Entry) : FileTree → FileTree
  | [] => [(p, e)]
  | (q, d) :: t => if q = p then (p, e) :: t else (q, d) :: put p e t

/-- The tree with nothing at a path. -/
def erase (p : Path) (t : FileTree) : FileTree := t.filter fun e => e.1 != p

theorem get?_put_self {p : Path} (hp : p.isAbove = false) (e : Entry) (t : FileTree) :
    (put p e t).get? p = some e := by
  simp only [get?, hp, Bool.false_eq_true, if_false]
  induction t with
  | nil => simp [put]
  | cons d t ih =>
    obtain ⟨q, d⟩ := d
    simp only [put]
    split
    · simp
    · rename_i hq
      simpa [List.find?_cons, hq] using ih

theorem get?_put_of_ne {p q : Path} (h : q ≠ p) (e : Entry) (t : FileTree) : (put p e t).get? q = t.get? q := by
  unfold get?
  split
  · rfl
  · induction t with
    | nil => simp [put, Ne.symm h]
    | cons d t ih =>
      obtain ⟨r, d⟩ := d
      simp only [put]
      split
      · rename_i hr
        subst hr
        simp [Ne.symm h]
      · by_cases hrq : r = q
        · simp [hrq]
        · simpa [List.find?_cons, hrq] using ih

/-! ### Access -/

/-- The number of bytes that the name of a file may have. -/
def maxName : Nat := 255

/-- The path from a directory on over one more part. -/
def extend (dir : Path) (part : Text) : Except IoError Path :=
  if maxName < Text.size part then .error .nameTooLong else .ok (dir.push part)

/-- The path from a directory on over one more part, when the directory is there. -/
def step (t : FileTree) (dir : Path) (part : Text) : Except IoError Path :=
  match t.get? dir with
  | some .directory => extend dir part
  | some (.file ..) => .error .notDirectory
  | none => .error .notFound

/-- The parts of the text of a path. -/
def parts (path : Text) : Except IoError (List Text) :=
  if path.contains (Char.ofNat 0) then .error .zeroCharacter else .ok (Text.splitOn '/' path)

/-- The path behind a text that is read from a directory on.  Whatever has a part behind it must be a directory. -/
def locateFrom (t : FileTree) (dir : Path) (path : Text) : Except IoError Path :=
  if path.isEmpty then .error .notFound
  else parts path >>= List.foldlM t.step (if path.startsWith ['/'] then Path.root else dir)

/-- The path behind a text that is read from the directory of the project on. -/
def locate (t : FileTree) (path : Text) : Except IoError Path := t.locateFrom [] path

/-- What is at a path, which must be there. -/
def find (t : FileTree) (path : Text) : Except IoError Entry := do
  match t.get? (← t.locate path) with
  | some e => return e
  | none => throw .notFound

def isDirectory (t : FileTree) (path : Text) : Bool := t.find path matches .ok .directory

/-- The content of a file. -/
def read (t : FileTree) (path : Text) : Except IoError Content := do
  match ← t.find path with
  | .file c _ => return c
  | .directory => throw .isDirectory

/-- The text of a file. -/
def readText (t : FileTree) (path : Text) : Except IoError Text := do
  match ← t.read path with
  | .text s => return s
  | .binary _ => throw .notText

/-- The tree with a file of the given content, a new one or in place of an old one, which stays executable. -/
def write (t : FileTree) (path : Text) (c : Content) : Except IoError FileTree := do
  let p ← t.locate (Path.withoutSlashes path)
  match t.get? p with
  | some .directory => throw .isDirectory
  | some (.file _ x) => if Path.endsInSlash path then throw .notDirectory else return t.put p (.file c x)
  | none => if Path.endsInSlash path then throw .isDirectory else return t.put p (.file c false)

def writeText (t : FileTree) (path s : Text) : Except IoError FileTree := t.write path (.text s)

/-! ### Directories -/

/-- The tree with a directory at a path where nothing is. -/
def createDirectory (t : FileTree) (path : Text) : Except IoError FileTree := do
  let p ← t.locate (Path.withoutSlashes path)
  match t.get? p with
  | some _ => throw .alreadyExists
  | none => return t.put p .directory

/-- Goes from a directory down over some parts and creates the directories that are missing. -/
def descend (t : FileTree) (dir : Path) : List Text → FileTree × Except IoError Unit
  | [] => (t, .ok ())
  | part :: parts =>
    match extend dir part with
    | .error e => (t, .error e)
    | .ok p =>
      match t.get? p with
      | some .directory => descend t p parts
      | some (.file ..) => (t, .error .alreadyExists)
      | none => descend (t.put p .directory) p parts

/-- The tree with a directory and all directories above it, those up to an error if there is one. -/
def createDirectories (t : FileTree) (path : Text) : FileTree × Except IoError Unit :=
  match parts path with
  | .error e => (t, .error e)
  | .ok parts => t.descend (if path.startsWith ['/'] then Path.root else []) parts

/-- The paths of the files under a directory, relative to it and in order. -/
def filesUnder (t : FileTree) (path : Text) : Except IoError (List Path) := do
  let dir ← t.locate path
  match t.get? dir with
  | some .directory =>
    return sortBy Path.le (t.filterMap fun (p, e) =>
      match e with
      | .file .. => dir.below? p
      | .directory => none)
  | some (.file ..) => throw .notDirectory
  | none => throw .notFound

/-! ### Copies and removals -/

/-- The tree with a file made executable or not. -/
def setExecutable (t : FileTree) (p : Path) (x : Bool) : FileTree :=
  match t.get? p with
  | some (.file c _) => t.put p (.file c x)
  | _ => t

/-- The tree with a file copied.  A file that is copied onto itself is empty then, because the target is emptied before
the source is read. -/
def copy (t : FileTree) (source target : Text) : Except IoError FileTree := do
  match ← t.find source with
  | .directory => throw .isDirectory
  | .file content x =>
    let from_ ← t.locate source
    let onto := (t.locate target).toOption == some from_
    let t ← t.write target (if onto then .text [] else content)
    return t.setExecutable (← t.locate target) x

/-- The tree without a file; nothing changes where there is none. -/
def removeFile (t : FileTree) (path : Text) : Except IoError FileTree := do
  match t.find path with
  | .error .notFound => return t
  | .error e => throw e
  | .ok .directory => throw .isDirectory
  | .ok (.file ..) => return t.erase (← t.locate path)

/-- The tree without a path and all that is below it. -/
def removeAll (t : FileTree) (path : Text) : Except IoError FileTree := do
  let _ ← t.find path
  let p ← t.locate path
  return t.filter fun e => (p.below? e.1).isNone

/-! ### Differences -/

/-- What became of a path. -/
inductive Fate where
  | present (entry : Entry)
  | removed (entry : Entry)
deriving DecidableEq, Repr

/-- The entries hold the same. -/
def sameContent : Entry → Entry → Bool
  | .directory, .directory => true
  | .file c _, .file d _ => c == d
  | _, _ => false

/-- What became of every path of the project that differs between two trees.  A file in place of a directory is new,
and the directory is removed. -/
def changes (earlier later : FileTree) : List (Path × Fate) :=
  ((later.filter fun (p, e) => p.isInside && !(earlier.get? p).any (sameContent e)).map fun (p, e) =>
      (p, .present e)) ++
    (earlier.filter fun (p, e) =>
      p.isInside && !(later.get? p).any fun d => d.isDirectory == e.isDirectory).map fun (p, e) => (p, .removed e)

end FileTree

/-! ### Disks -/

/-- Access to files by the texts of their paths.  An action either completes or fails without effect. -/
class Disk (m : Type → Type) where
  readText : Text → m (Except IoError Text)
  writeText : Text → Text → m (Except IoError Unit)

instance : Disk (StateM FileTree) where
  readText path := do return (← get).readText path
  writeText path t := do
    match (← get).writeText path t with
    | .ok tree =>
      set tree
      return .ok ()
    | .error e => return .error e

end Graft
