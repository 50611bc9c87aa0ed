/-
Patterns with wildcards.

A pattern is matched against a whole text.  Its characters are active or not; an active star stands for any text, an
active question mark for any character, and brackets for one of some characters.

Main statements: `Wildcard.fits`, `fits_chars` (a pattern without wildcards matches itself only),
`Wildcard.trim` (a text without a part that matches), `Wildcard.names` (the files that a pattern names).
-/
import Graft.Project.FileTree
import Graft.Shell.Octets

namespace Graft.Shell

/-- A part of a pattern. -/
inductive Wildcard where
  | char (c : Char)
  | one
  | any
  /-- A character in one of some ranges, or in none of them. -/
  | among (negated : Bool) (ranges : List (Char × Char))
deriving DecidableEq, Repr

namespace Wildcard

/-! ### Matching -/

/-- The ends of a text, the whole text first. -/
def ends {α : Type} : List α → List (List α)
  | [] => [[]]
  | c :: t => (c :: t) :: ends t

def holds : Wildcard → Char → Bool
  | char d, c => c == d
  | one, _ | any, _ => true
  | among negated ranges, c => (ranges.any fun (a, b) => a ≤ c && c ≤ b) != negated

/-- A text matches a pattern. -/
def fits : List Wildcard → Octets → Bool
  | [], t => t.isEmpty
  | any :: ws, t => (ends t).any (fits ws)
  | _ :: _, [] => false
  | w :: ws, c :: t => w.holds c && fits ws t

theorem fits_chars (p t : Octets) : fits (p.map char) t = (p == t) := by
  induction p generalizing t with
  | nil => cases t <;> rfl
  | cons c p ih =>
    cases t with
    | nil => rfl
    | cons d t =>
      simp only [List.map_cons, fits, holds, ih, List.cons_beq_cons, Bool.beq_comm]

/-! ### Reading patterns -/

/-- The ranges of a class of characters. -/
def classRanges? (name : Octets) : Option (List (Char × Char)) :=
  match String.ofList name with
  | "alpha" => some [('a', 'z'), ('A', 'Z')]
  | "digit" => some [('0', '9')]
  | "alnum" => some [('a', 'z'), ('A', 'Z'), ('0', '9')]
  | "upper" => some [('A', 'Z')]
  | "lower" => some [('a', 'z')]
  | "space" => some [(' ', ' '), ('\t', '\r')]
  | "blank" => some [(' ', ' '), ('\t', '\t')]
  | "punct" => some [('!', '/'), (':', '@'), ('[', '`'), ('\x7b', '~')]
  | "cntrl" => some [(Char.ofNat 0, Char.ofNat 31), (Char.ofNat 127, Char.ofNat 127)]
  | "print" => some [(' ', '~')]
  | "graph" => some [('!', '~')]
  | "xdigit" => some [('a', 'f'), ('A', 'F'), ('0', '9')]
  | _ => none

/-- Characters that are active or not. -/
abbrev Marked := List (Char × Bool)

/-- The class at the front of a text, behind its opening bracket and colon. -/
def classAt? (t : Marked) : Option (List (Char × Char) × Marked) :=
  let name := t.takeWhile fun (c, _) => c.isAlpha
  match t.drop name.length with
  | (':', _) :: (']', _) :: rest => (classRanges? (name.map Prod.fst)).map fun r => (r, rest)
  | _ => none

/-- The ranges up to the closing bracket, which is none at the first place. -/
def ranges? : Nat → Bool → Marked → Option (List (Char × Char) × Marked)
  | 0, _, _ => none
  | _ + 1, _, [] => none
  | n + 1, atFirst, (c, active) :: t =>
    let single : Option (List (Char × Char) × Marked) :=
      match t with
      | ('-', true) :: (d, dActive) :: u =>
        if d = ']' && dActive then (ranges? n false t).map fun (rs, rest) => ((c, c) :: rs, rest)
        else (ranges? n false u).map fun (rs, rest) => ((c, d) :: rs, rest)
      | _ => (ranges? n false t).map fun (rs, rest) => ((c, c) :: rs, rest)
    if c = ']' && active && !atFirst then some ([], t)
    else if c = '[' && active then
      match t with
      | (':', _) :: u =>
        match classAt? u with
        | some (r, rest) => (ranges? n false rest).map fun (rs, rest) => (r ++ rs, rest)
        | none => single
      | _ => single
    else if c = '\\' && active then
      match t with
      | (d, _) :: u => (ranges? n false u).map fun (rs, rest) => ((d, d) :: rs, rest)
      | [] => single
    else single

/-- What brackets stand for, behind the opening one. -/
def bracket? (t : Marked) : Option (Wildcard × Marked) :=
  let (negated, t) : Bool × Marked := match t with
    | ('!', true) :: t => (true, t)
    | t => (false, t)
  (ranges? (t.length + 1) true t).map fun (rs, rest) => (among negated rs, rest)

/-- The pattern of marked characters, for which the bound lasts. -/
def readFrom : Nat → Marked → List Wildcard
  | 0, _ => []
  | _ + 1, [] => []
  | n + 1, (c, active) :: t =>
    if !active then char c :: readFrom n t
    else if c = '*' then any :: readFrom n t
    else if c = '?' then one :: readFrom n t
    else if c = '[' then
      match bracket? t with
      | some (w, rest) => w :: readFrom n rest
      | none => char c :: readFrom n t
    else if c = '\\' then
      match t with
      | (d, _) :: u => char d :: readFrom n u
      | [] => [char c]
    else char c :: readFrom n t

/-- The pattern that marked characters are. -/
def ofMarked (t : Marked) : List Wildcard := readFrom (t.length + 1) t

/-- The pattern of a text whose characters are all active. -/
def ofOctets (o : Octets) : List Wildcard := ofMarked (o.map fun c => (c, true))

/-- Some character is a wildcard. -/
def isActive (t : Marked) : Bool := t.any fun (c, active) => active && (c == '*' || c == '?' || c == '[')

/-! ### Cutting -/

/-- The beginnings of a text, the shortest first. -/
def beginnings (t : Octets) : List Octets := (List.range (t.length + 1)).map t.take

/-- A text without the shortest or the longest part at one of its ends that matches. -/
def trim (atEnd longest : Bool) (pattern : List Wildcard) (t : Octets) : Octets :=
  let lengths := (List.range (t.length + 1))
  let lengths := if longest then lengths.reverse else lengths
  let part (n : Nat) : Octets := if atEnd then t.drop (t.length - n) else t.take n
  match lengths.find? fun n => fits pattern (part n) with
  | some n => if atEnd then t.take (t.length - n) else t.drop n
  | none => t

/-! ### Names of files -/

/-- The marked parts between slashes. -/
def parts (t : Marked) : List Marked :=
  t.foldr (fun x ps =>
    match ps with
    | p :: ps => if x.1 = '/' then [] :: p :: ps else (x :: p) :: ps
    | [] => [[x]]) [[]]

/-- The names in a directory. -/
def children (tree : FileTree) (dir : Path) : List Octets :=
  tree.filterMap fun (p, _) =>
    match dir.below? p with
    | some [part] => some (Octets.ofText part)
    | _ => none

/-- The names that continue some names by one part of a pattern.  A name with a dot in front is only found by a
pattern with one. -/
def continued (tree : FileTree) (locate : Octets → Except IoError Path) (opened : List Octets) (part : Marked) :
    List Octets :=
  if !isActive part then opened.map (· ++ part.map Prod.fst)
  else
    let pattern := ofMarked part
    let dotted := part.head?.any (·.1 == '.')
    opened.flatMap fun o =>
      match locate (if o.isEmpty then ['.'] else o) with
      | .error _ => []
      | .ok dir =>
        if tree.get? dir matches some .directory then
          ((['.'] :: ['.', '.'] :: children tree dir).filter fun name =>
            (name.head? != some '.' || dotted) && fits pattern name).map (o ++ ·)
        else []

/-- The names of files that a pattern has, in order. -/
def names (tree : FileTree) (locate : Octets → Except IoError Path) (t : Marked) : List Octets :=
  let found := match parts t with
    | [] => []
    | part :: rest =>
      rest.foldl (fun opened part => continued tree locate (opened.map (· ++ ['/'])) part)
        (continued tree locate [[]] part)
  let present (o : Octets) : Bool := (locate o).toOption.any fun p => (tree.get? p).isSome
  sortBy Text.le (found.filter present)

end Wildcard

end Graft.Shell
