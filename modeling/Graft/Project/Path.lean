/-
Paths inside of a project.

A path is the list of its parts from the directory of the project down.  Outside of the project, a path starts with
two dots for every directory that it goes up, or with a slash when it is given from the root.  The text of a path is
read in the tree of files, which knows where a part is a directory; here are the rules that need no files.

Main statements: `Path.push`, `Path.isInside`, `Path.join` (a path seen from a directory), `Path.trim`, `Path.below?`,
`below?_append`.
-/
import Graft.Text

namespace Graft

/-- The parts of a path, from the directory of the project down. -/
abbrev Path := List Text

namespace Path

/-! ### Parts -/

/-- The part that leads up. -/
def upward : Text := ['.', '.']

/-- The root of the machine. -/
def root : Path := [['/']]

/-- A directory that is above the project, or the root. -/
def isAbove (p : Path) : Bool := p == root || p.all (· == upward)

/-- The path stays in the project. -/
def isInside : Path → Bool
  | [] => true
  | part :: _ => part != upward && part != ['/']

/-- The directory that holds a path. -/
def up (p : Path) : Path := if p == root then p else if p.all (· == upward) then p ++ [upward] else p.dropLast

/-- A path with one more part of a text: the empty part and a single dot stay, two dots go up. -/
def push (p : Path) (part : Text) : Path :=
  if part.isEmpty || part == ['.'] then p
  else if part == upward then p.up
  else p ++ [part]

def toText (p : Path) : Text := Text.join ['/'] p

/-- What remains of `p` below `dir`. -/
def below? (dir p : Path) : Option Path := if dir.isPrefixOf p then some (p.drop dir.length) else none

theorem below?_append (dir p : Path) : below? dir (dir ++ p) = some p := by
  simp [below?, List.isPrefixOf_iff_prefix]

/-- Order of paths part by part. -/
def le : Path → Path → Bool
  | [], _ => true
  | _ :: _, [] => false
  | a :: p, b :: q => if a = b then le p q else a.le b

/-! ### Texts of paths -/

/-- The text of a path that is given relative to a directory, unless it starts at the root. -/
def join (dir path : Text) : Text :=
  if path.startsWith ['/'] || dir.isEmpty then path
  else if dir.getLast? = some '/' then dir ++ path
  else dir ++ '/' :: path

/-- A part that does not lead anywhere. -/
def isIdle (part : Text) : Bool := part.isEmpty || part == ['.']

/-- The slash that a path from the root begins with. -/
def rootText (path : Text) : Text := path.take 1 |>.filter (· == '/')

/-- The text of a path without slashes and single dots around it, but for the slash of the root. -/
def trim (path : Text) : Text :=
  rootText path ++ toText ((((Text.splitOn '/' path).dropWhile isIdle).reverse.dropWhile isIdle).reverse)

/-- The text of the directory that holds a path. -/
def parent (path : Text) : Text :=
  let above := (((Text.splitOn '/' path).reverse.dropWhile isIdle).drop 1).reverse
  if above == [[]] then ['/'] else toText above

/-- The last part of a path, unless that leads up. -/
def fileName? (path : Text) : Option Text :=
  (((Text.splitOn '/' path).reverse.dropWhile isIdle).head?).filter (· != upward)

/-- The text without slashes at its end. -/
def withoutSlashes (path : Text) : Text := (path.reverse.dropWhile (· == '/')).reverse

def endsInSlash (path : Text) : Bool := path.getLast? = some '/'

end Path

end Graft
