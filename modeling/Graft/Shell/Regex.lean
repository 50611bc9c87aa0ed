/-
Regular expressions.

There are two styles: in the extended one brackets, braces and bars are signs, in the basic one they are when a
backslash stands before them.  A search finds the leftmost match, and of those that start there the longest.

Main statements: `Regex.ofOctets?`, `Regex.search?`, `Regex.isMatch`.
-/
import Graft.Shell.Wildcard

namespace Graft.Shell

inductive Regex where
  | empty
  | char (c : Char)
  | any
  | among (negated : Bool) (ranges : List (Char × Char))
  /-- The start of the text. -/
  | start
  | stop
  /-- A place between a word and what is no word, in that order or in the other. -/
  | wordStart
  | wordStop
  | wordBoundary
  | noBoundary
  /-- A place that no word goes on to, and one that no word goes on from. -/
  | outsideBefore
  | outsideBehind
  | sequence (a b : Regex)
  | either (a b : Regex)
  | repeated (least : Nat) (most : Option Nat) (r : Regex)
  | group (n : Nat) (r : Regex)
  /-- What a group has matched. -/
  | reference (n : Nat)
deriving DecidableEq, Repr

namespace Regex

/-! ### Matching -/

/-- A place in a text, with the parts that groups have matched. -/
structure Spot where
  before : Option Char
  rest : Octets
  index : Nat
  groups : List (Nat × Nat × Nat)

def isWord (c : Char) : Bool := c.isAlphanum || c == '_'

namespace Spot

/-- The place behind the next character. -/
def next? (s : Spot) : Option (Char × Spot) :=
  match s.rest with
  | [] => none
  | c :: t => some (c, { s with before := some c, rest := t, index := s.index + 1 })

def afterWord (s : Spot) : Bool := s.before.any isWord

def beforeWord (s : Spot) : Bool := s.rest.head?.any isWord

/-- The place behind some more characters. -/
def skip : Nat → Spot → Spot
  | 0, s => s
  | n + 1, s => match s.next? with
    | some (_, t) => skip n t
    | none => s

end Spot

/-- How a text is matched. -/
structure Manner where
  ignoreCase : Bool
  /-- Matches of all lengths are tried, not only the first that is found. -/
  longest : Bool

def Manner.same (m : Manner) (c d : Char) : Bool := c == d || (m.ignoreCase && c.toLower == d.toLower)

def Manner.inRanges (m : Manner) (ranges : List (Char × Char)) (c : Char) : Bool :=
  let within (c : Char) : Bool := ranges.any fun (a, b) => a ≤ c && c ≤ b
  within c || (m.ignoreCase && (within c.toLower || within c.toUpper))

/-- The text that a group has matched. -/
def groupText (text : Octets) (groups : List (Nat × Nat × Nat)) (n : Nat) : Option Octets :=
  (groups.find? (·.1 == n)).map fun (_, i, j) => (text.drop i).take (j - i)

/-- The best end of a match from a place on.  The rest of the match is found by `k`; the bound lasts for the steps. -/
def run (m : Manner) (text : Octets) : Nat → Regex → Spot → (Spot → Option Spot) → Option Spot
  | 0, _, _, _ => none
  | n + 1, r, s, k =>
    let one (p : Char → Bool) : Option Spot :=
      match s.next? with
      | some (c, t) => if p c then k t else none
      | none => none
    let holds (b : Bool) : Option Spot := if b then k s else none
    let choose (a : Option Spot) (b : Unit → Option Spot) : Option Spot :=
      match a with
      | none => b ()
      | some s =>
        if m.longest then
          match b () with
          | some t => if t.index > s.index then some t else some s
          | none => some s
        else some s
    match r with
    | empty => k s
    | char c => one (m.same c)
    | any => one fun _ => true
    | among negated ranges => one fun c => m.inRanges ranges c != negated
    | start => holds (s.index == 0)
    | stop => holds s.rest.isEmpty
    | wordStart => holds (!s.afterWord && s.beforeWord)
    | wordStop => holds (s.afterWord && !s.beforeWord)
    | wordBoundary => holds (s.afterWord != s.beforeWord)
    | noBoundary => holds (s.afterWord == s.beforeWord)
    | outsideBefore => holds !s.afterWord
    | outsideBehind => holds !s.beforeWord
    | sequence a b => run m text n a s fun t => run m text n b t k
    | either a b => choose (run m text n a s k) fun _ => run m text n b s k
    | repeated least most r =>
      let more : Option Spot :=
        if most = some 0 then none
        else run m text n r s fun t =>
          if t.index = s.index && least = 0 then none
          else run m text n (repeated (least - 1) (most.map (· - 1)) r) t k
      if least = 0 then choose more fun _ => k s else more
    | group i r => run m text n r s fun t =>
      k { t with groups := (i, s.index, t.index) :: t.groups.filter (·.1 != i) }
    | reference i =>
      match groupText text s.groups i with
      | some o =>
        let t := s.skip o.length
        if t.index = s.index + o.length && (o.zip s.rest).all fun (c, d) => m.same c d then k t else none
      | none => none

def size : Regex → Nat
  | sequence a b | either a b => size a + size b + 1
  | repeated least most r => (size r + 1) * (max least (most.getD 0) + 2)
  | group _ r => size r + 1
  | _ => 1

/-- The number of groups. -/
def groupCount : Regex → Nat
  | sequence a b | either a b => groupCount a + groupCount b
  | repeated _ _ r => groupCount r
  | group _ r => groupCount r + 1
  | _ => 0

/-- Some match may be longer than the one that is found first. -/
def hasChoice : Regex → Bool
  | either .. => true
  | sequence a b => hasChoice a || hasChoice b
  | group _ r => hasChoice r
  | repeated _ _ r =>
    match r with
    | char _ | any | among .. => false
    | _ => true
  | _ => false

/-- A match: where it starts and stops, and the parts that groups have matched. -/
structure Match where
  start : Nat
  stop : Nat
  groups : List (Nat × Nat × Nat)
deriving Repr

/-- The best match that starts at a place. -/
def matchAt? (r : Regex) (ignoreCase : Bool) (text : Octets) (s : Spot) : Option Match :=
  (run ⟨ignoreCase, r.hasChoice⟩ text ((r.size + 1) * (s.rest.length + 2)) r s some).map fun t =>
    ⟨s.index, t.index, t.groups⟩

/-- The first match from a place on. -/
def searchFrom (r : Regex) (ignoreCase : Bool) (text : Octets) : Octets → Option Char → Nat → Option Match
  | [], before, i => r.matchAt? ignoreCase text ⟨before, [], i, []⟩
  | c :: t, before, i =>
    match r.matchAt? ignoreCase text ⟨before, c :: t, i, []⟩ with
    | some m => some m
    | none => searchFrom r ignoreCase text t (some c) (i + 1)

/-- The first match in a text that does not start before some place. -/
def search? (r : Regex) (ignoreCase : Bool) (text : Octets) (start : Nat) : Option Match :=
  searchFrom r ignoreCase text (text.drop start) (if start = 0 then none else text[start - 1]?) start

def isMatch (r : Regex) (ignoreCase : Bool) (text : Octets) : Bool := (r.search? ignoreCase text 0).isSome

/-! ### Reading -/

/-- How regular expressions are written. -/
structure Style where
  /-- Signs stand without a backslash. -/
  extended : Bool
  /-- Line feeds and tabs may be written as letters behind a backslash. -/
  letters : Bool

/-- A sign of an expression. -/
inductive Sign where
  | plain (c : Char)
  | set (r : Regex)
  | star
  | plus
  | question
  | bounds
  | open_
  | close
  | bar
  | caret
  | dollar
  | finish
deriving DecidableEq

/-- Ranges of the characters that make up words, and of those that are blank. -/
def wordRanges : List (Char × Char) := [('a', 'z'), ('A', 'Z'), ('0', '9'), ('_', '_')]

def spaceRanges : List (Char × Char) := [(' ', ' '), ('\t', '\r')]

/-- The signs that a letter behind a backslash stands for. -/
def escape (style : Style) (c : Char) : Sign :=
  match c with
  | 'w' => .set (among false wordRanges)
  | 'W' => .set (among true wordRanges)
  | 's' => .set (among false spaceRanges)
  | 'S' => .set (among true spaceRanges)
  | 'b' => .set wordBoundary
  | 'B' => .set noBoundary
  | '<' => .set wordStart
  | '>' => .set wordStop
  | '`' => .set start
  | '\'' => .set stop
  | 'n' => .plain (if style.letters then '\n' else 'n')
  | 't' => .plain (if style.letters then '\t' else 't')
  | 'r' => .plain (if style.letters then '\r' else 'r')
  | 'f' => .plain (if style.letters then '\x0c' else 'f')
  | 'v' => .plain (if style.letters then '\x0b' else 'v')
  | c => if c.isDigit && c != '0' then .set (reference (Octets.digitValue c)) else .plain c

/-- The sign that a character stands for where it has a meaning. -/
def sign? (c : Char) : Option Sign :=
  match c with
  | '+' => some .plus
  | '?' => some .question
  | '\x7b' => some .bounds
  | '(' => some .open_
  | ')' => some .close
  | '|' => some .bar
  | _ => none

/-- What brackets stand for, behind the opening one. -/
def bracket? (style : Style) (t : Octets) : Except String (Regex × Octets) :=
  let (negated, t) : Bool × Octets := match t with
    | '^' :: t => (true, t)
    | t => (false, t)
  let rec read : Nat → Bool → Octets → Option (List (Char × Char) × Octets)
    | 0, _, _ => none
    | _ + 1, _, [] => none
    | n + 1, atFirst, c :: t =>
      if c = ']' && !atFirst then some ([], t)
      else if c = '[' && t.head? = some ':' then
        match Wildcard.classAt? ((t.drop 1).map fun c => (c, true)) with
        | some (r, rest) => (read n false (rest.map Prod.fst)).map fun (rs, rest) => (r ++ rs, rest)
        | none => none
      else
        let (c, t) : Char × Octets := match c, t with
          | '\\', 'n' :: u => if style.letters then ('\n', u) else (c, t)
          | '\\', 't' :: u => if style.letters then ('\t', u) else (c, t)
          | _, _ => (c, t)
        match t with
        | '-' :: d :: u =>
          if d = ']' then (read n false t).map fun (rs, rest) => ((c, c) :: rs, rest)
          else (read n false u).map fun (rs, rest) => ((c, d) :: rs, rest)
        | _ => (read n false t).map fun (rs, rest) => ((c, c) :: rs, rest)
  match read (t.length + 1) true t with
  | some (rs, rest) => .ok (among negated rs, rest)
  | none => .error "Unmatched [, [^, [:, [., or [="

/-- The next sign and what follows it. -/
def next (style : Style) : Octets → Except String (Sign × Octets)
  | [] => .ok (.finish, [])
  | '\\' :: [] => .error "Trailing backslash"
  | '\\' :: c :: t =>
    match sign? c with
    | some s => .ok (if style.extended then .plain c else s, t)
    | none => .ok (escape style c, t)
  | '.' :: t => .ok (.set any, t)
  | '*' :: t => .ok (.star, t)
  | '^' :: t => .ok (.caret, t)
  | '$' :: t => .ok (.dollar, t)
  | '[' :: t => (bracket? style t).map fun (r, rest) => (.set r, rest)
  | c :: t =>
    match sign? c with
    | some s => .ok (if style.extended then s else .plain c, t)
    | none => .ok (.plain c, t)

/-- The least and the most times of a repetition, behind the opening brace. -/
def bounds? (style : Style) (t : Octets) : Option (Nat × Option Nat × Octets) :=
  let close? (t : Octets) : Option Octets :=
    if style.extended then Text.strip? ['\x7d'] t else Text.strip? ['\\', '\x7d'] t
  let low := t.takeWhile Char.isDigit
  match t.drop low.length with
  | ',' :: t =>
    let high := t.takeWhile Char.isDigit
    (close? (t.drop high.length)).map fun rest =>
      (Octets.natOf 10 low, if high.isEmpty then none else some (Octets.natOf 10 high), rest)
  | t =>
    if low.isEmpty then none
    else (close? t).map fun rest => (Octets.natOf 10 low, some (Octets.natOf 10 low), rest)

/-- A part that was read, what follows it, and the number of groups so far. -/
abbrev Read := Except String (Regex × Octets × Nat)

/-- The repetitions behind a part. -/
def repetitions (style : Style) : Nat → Regex → Octets → Except String (Regex × Octets)
  | 0, r, t => .ok (r, t)
  | n + 1, r, t => do
    match ← next style t with
    | (.star, u) => repetitions style n (repeated 0 none r) u
    | (.plus, u) => repetitions style n (repeated 1 none r) u
    | (.question, u) => repetitions style n (repeated 0 (some 1) r) u
    | (.bounds, u) =>
      match bounds? style u with
      | some (least, most, rest) =>
        if most.any (· < least) then throw "Invalid content of \\\x7b\\\x7d"
        repetitions style n (repeated least most r) rest
      | none => if style.extended then return (r, t) else throw "Invalid content of \\\x7b\\\x7d"
    | _ => return (r, t)

/-- A dollar sign ends the text if nothing but the end of a part follows. -/
def isLast (style : Style) (t : Octets) : Bool :=
  style.extended || match next style t with
    | .ok (.finish, _) | .ok (.close, _) | .ok (.bar, _) => true
    | _ => false

mutual

/-- Alternatives, with brackets open if `inner`. -/
def alternatives (style : Style) (inner : Bool) : Nat → Octets → Nat → Read
  | 0, _, _ => .error "Regular expression too big"
  | n + 1, t, groups => do
    let (a, rest, groups) ← parts style inner n true t groups
    match ← next style rest with
    | (.bar, rest) =>
      let (b, rest, groups) ← alternatives style inner n rest groups
      return (either a b, rest, groups)
    | _ => return (a, rest, groups)

/-- Parts one behind the other. -/
def parts (style : Style) (inner : Bool) : Nat → Bool → Octets → Nat → Read
  | 0, _, _, _ => .error "Regular expression too big"
  | n + 1, atStart, t, groups => do
    let go (r : Regex) (rest : Octets) (groups : Nat) : Read := do
      let (r, rest) ← repetitions style rest.length r rest
      let (s, rest, groups) ← parts style inner n false rest groups
      return (if s = empty then r else sequence r s, rest, groups)
    let (s, rest) ← next style t
    match s with
    | .finish | .bar => return (empty, t, groups)
    | .close =>
      if inner then return (empty, t, groups)
      else throw "Unmatched ) or \\)"
    | .plain c => go (char c) rest groups
    | .set r =>
      match r with
      | reference i => if i > groups then throw "Invalid back reference" else go r rest groups
      | r => go r rest groups
    | .open_ =>
      let (r, rest, after) ← alternatives style true n rest (groups + 1)
      match ← next style rest with
      | (.close, rest) => go (group (groups + 1) r) rest after
      | _ => throw "Unmatched ( or \\("
    | .star => if atStart then go (char '*') rest groups else throw "Invalid preceding regular expression"
    | .plus => if style.extended && !atStart then throw "Invalid preceding regular expression" else go (char '+') rest groups
    | .question =>
      if style.extended && !atStart then throw "Invalid preceding regular expression" else go (char '?') rest groups
    | .bounds =>
      if style.extended then go (char '\x7b') rest groups else throw "Invalid preceding regular expression"
    | .caret =>
      if style.extended || atStart then
        let (s, rest, groups) ← parts style inner n true rest groups
        return (if s = empty then start else sequence start s, rest, groups)
      else go (char '^') rest groups
    | .dollar =>
      if isLast style rest then
        let (s, rest, groups) ← parts style inner n false rest groups
        return (if s = empty then stop else sequence stop s, rest, groups)
      else go (char '$') rest groups

end

/-- The regular expression that a text is, or else what is wrong with it. -/
def ofOctets? (style : Style) (t : Octets) : Except String Regex :=
  (alternatives style false (2 * t.length + 2) t 0).map Prod.fst

/-- The expression on whole texts only. -/
def whole (r : Regex) : Regex := sequence start (sequence r stop)

/-- The expression where no word goes on before or behind it. -/
def apart (r : Regex) : Regex := sequence outsideBefore (sequence r outsideBehind)

/-- The expression that matches a text itself. -/
def ofText (t : Octets) : Regex := t.foldr (fun c r => if r = empty then char c else sequence (char c) r) empty

end Regex

end Graft.Shell
