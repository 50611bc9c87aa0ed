/-
A tool that searches lines by patterns.

Main statements: `Tool.grep`, `Search.selects` (whether a line is shown), `Search.report` (what is shown of a text).
-/
import Graft.Shell.Regex
import Graft.Shell.Tool.Lines
import Graft.Shell.Tool.Names

namespace Graft.Shell.Tool

open Program

/-- What is searched for, and what is shown of it. -/
structure Search where
  patterns : List Regex
  ignoreCase : Bool
  /-- The lines without a match are meant. -/
  inverted : Bool
  /-- The most lines of a text that are selected. -/
  most : Option Nat
  /-- The numbers of lines that are shown before and behind. -/
  before : Nat
  behind : Nat
  /-- Parts of a text that are apart have a line between them. -/
  parted : Bool
  /-- Only matches are shown. -/
  onlyMatches : Bool
  numbered : Bool
  withOffsets : Bool
  lineEnd : Char

namespace Search

/-! ### Lines -/

/-- The first match in a line from a place on; of several patterns, the longest of those that start first. -/
def match? (s : Search) (line : Octets) (start : Nat) : Option (Nat × Nat) :=
  (s.patterns.filterMap fun r => (r.search? s.ignoreCase line start).map fun m => (m.start, m.stop)).foldl
    (fun best m =>
      match best with
      | some b => if m.1 < b.1 || (m.1 = b.1 && b.2 < m.2) then some m else some b
      | none => some m) none

/-- The matches in a line that are not empty, for which the bound lasts. -/
def matchesFrom (s : Search) (line : Octets) : Nat → Nat → List (Nat × Nat)
  | 0, _ => []
  | n + 1, start =>
    match s.match? line start with
    | none => []
    | some (i, j) =>
      if i < j then (i, j) :: matchesFrom s line n j
      else if i < line.length then matchesFrom s line n (i + 1)
      else []

def selects (s : Search) (line : Octets) : Bool := (s.match? line 0).isSome != s.inverted

/-- A line of a text. -/
structure Line where
  number : Nat
  offset : Nat
  text : Octets
  selected : Bool

/-- The lines of a text, from a number and a place on.  No more than `most` are selected. -/
def linesFrom (s : Search) : List Octets → Nat → Nat → Option Nat → List Line
  | [], _, _, _ => []
  | l :: ls, number, offset, most =>
    let selected := most != some 0 && s.selects l
    ⟨number, offset, l, selected⟩ ::
      linesFrom s ls (number + 1) (offset + l.length + 1) (if selected then most.map (· - 1) else most)

/-- The parts of a text between line ends. -/
def partsOf (lineEnd : Char) (text : Octets) : List Octets :=
  let parts := Text.splitOn lineEnd text
  if parts.getLast? = some [] then parts.dropLast else parts

def linesOf (s : Search) (text : Octets) : List Line := s.linesFrom (partsOf s.lineEnd text) 1 0 s.most

/-! ### Output -/

/-- What stands in front of a line: the name of its file, its number, its place. -/
def front (s : Search) (name : Option Octets) (number offset : Nat) (sign : Char) : Octets :=
  (match name with
  | some n => n ++ [sign]
  | none => []) ++
    (if s.numbered then Text.ofNat number ++ [sign] else []) ++
    (if s.withOffsets then Text.ofNat offset ++ [sign] else [])

/-- A line as it is shown. -/
def shown (s : Search) (name : Option Octets) (l : Line) : Octets :=
  let sign := if l.selected then ':' else '-'
  if s.onlyMatches then
    if s.inverted || !l.selected then []
    else (s.matchesFrom l.text (l.text.length + 1) 0).flatMap fun (i, j) =>
      s.front name l.number (l.offset + i) sign ++ (l.text.drop i).take (j - i) ++ [s.lineEnd]
  else s.front name l.number l.offset sign ++ l.text ++ [s.lineEnd]

/-- The lines that are near to a selected one. -/
def near (s : Search) (ls : List Line) : List Line :=
  let numbers := (ls.filter Line.selected).map Line.number
  ls.filter fun l => numbers.any fun n => n ≤ l.number + s.before && l.number ≤ n + s.behind

/-- What is shown of lines, behind one with a number if one was shown.  A gap is marked if something was shown
before. -/
def report (s : Search) (name : Option Octets) : List Line → Option Nat → Bool → Octets
  | [], _, _ => []
  | l :: ls, last, begun =>
    let gap := if s.parted && begun && last.map (· + 1) != some l.number then "--\n".toList else []
    gap ++ s.shown name l ++ report s name ls (some l.number) true

end Search

/-! ### Files -/

def grepOptions : OptionTable := .ofString "EFGPivywxclnoqsrRhHLzaIbTZUm:A:B:C:f:e:D:d:N:X:Y:K::"
  [("extended-regexp", 'E'), ("fixed-strings", 'F'), ("basic-regexp", 'G'), ("perl-regexp", 'P'), ("ignore-case", 'i'),
    ("invert-match", 'v'), ("word-regexp", 'w'), ("line-regexp", 'x'), ("count", 'c'), ("files-with-matches", 'l'),
    ("files-without-match", 'L'), ("line-number", 'n'), ("only-matching", 'o'), ("quiet", 'q'), ("silent", 'q'),
    ("no-messages", 's'), ("recursive", 'r'), ("dereference-recursive", 'R'), ("no-filename", 'h'),
    ("with-filename", 'H'), ("text", 'a'), ("byte-offset", 'b'), ("max-count", 'm'), ("after-context", 'A'),
    ("before-context", 'B'), ("context", 'C'), ("file", 'f'), ("regexp", 'e'), ("include", 'N'), ("exclude", 'X'),
    ("exclude-dir", 'Y'), ("color", 'K'), ("colour", 'K')] true

/-- Digits behind a dash are a number of lines around each match. -/
def withContext (arguments : List Octets) : List Octets :=
  arguments.map fun a =>
    match a with
    | '-' :: d :: ds => if (d :: ds).all Char.isDigit then '-' :: 'C' :: d :: ds else a
    | _ => a

/-- The expression that a pattern is. -/
def grepPattern (o : Options) (pattern : Octets) : Except String Regex := do
  let style := (o.last? "EFGP").getD 'G'
  let r ← if style = 'F' then pure (Regex.ofText pattern) else Regex.ofOctets? ⟨style = 'E' || style = 'P', false⟩ pattern
  return if o.has 'x' then r.whole else if o.has 'w' then r.apart else r

/-- The search that options describe, by the texts of its patterns. -/
def searchOf (o : Options) (patterns : List Octets) : Except Octets Search := do
  let rs ← match patterns.mapM (grepPattern o) with
    | .ok rs => pure rs
    | .error e => throw e.toList
  let count (letters : String) : Except Octets (Option Nat) :=
    match (o.given.filter fun g => letters.toList.contains g.1).getLast? with
    | some (_, v) =>
      match Octets.nat? v with
      | some n => .ok (some n)
      | none => .error (v ++ ": invalid context length argument".toList)
    | none => .ok none
  let before ← count "BC"
  let behind ← count "AC"
  let most ← match o.value? 'm' with
    | some v =>
      match Octets.int? v with
      | some i => pure (if i < 0 then none else some i.toNat)
      | none => throw "invalid max count".toList
    | none => pure none
  return {
    patterns := rs, ignoreCase := o.has 'i' || o.has 'y', inverted := o.has 'v', most := most
    before := if o.has 'o' then 0 else before.getD 0, behind := if o.has 'o' then 0 else behind.getD 0
    parted := before.isSome || behind.isSome
    onlyMatches := o.has 'o', numbered := o.has 'n', withOffsets := o.has 'b'
    lineEnd := if o.has 'z' then Char.ofNat 0 else '\n' }

/-- A file is left out by its name. -/
def isLeftOut (o : Options) (name : Octets) : Bool :=
  let fits (patterns : List Octets) : Bool :=
    patterns.any fun g => Wildcard.fits (Wildcard.ofOctets g) (lastPart name)
  (!(o.values 'N').isEmpty && !fits (o.values 'N')) || fits (o.values 'X')

/-- A file lies in a directory that is left out. -/
def isInLeftOut (o : Options) (start name : Octets) : Bool :=
  let dirs := (Text.splitOn '/' (name.drop start.length)).dropLast
  (o.values 'Y').any fun g => dirs.any fun d => Wildcard.fits (Wildcard.ofOctets g) d

/-- The names under which an operand is searched, and whether they are below a directory. -/
def searchedNames (o : Options) (operand : Octets) : Act (List Octets × Bool) := do
  let s ← get
  match s.locate operand with
  | .ok p =>
    if operand = ['-'] then return ([operand], false)
    else if (o.has 'r' || o.has 'R') && (s.tree.get? p matches some .directory) then
      let files := (namesBelow s.tree operand p).filter fun (name, _, e) =>
        !e.isDirectory && !isLeftOut o name && !isInLeftOut o operand name
      return (files.map Prod.fst, true)
    else return (if isLeftOut o operand then [] else [operand], false)
  | .error _ => return ([operand], false)

/-- Searches a text; the value tells whether a line was selected. -/
def searchText (o : Options) (s : Search) (name : Octets) (named begun : Bool) (text : Octets) : Act Bool := do
  let shownName := if name = ['-'] then "(standard input)".toList else name
  let front := if named then some shownName else none
  let ls := s.linesOf text
  let selected := (ls.filter Search.Line.selected).length
  let any := selected > 0
  if o.has 'q' then return any
  if o.has 'l' || o.has 'L' then
    if any = o.has 'l' then writeLine shownName
    return any
  if o.has 'c' then
    writeLine ((if named then shownName ++ [':'] else []) ++ Text.ofNat selected)
    return any
  if text.contains (Char.ofNat 0) && !o.has 'a' && !o.has 'z' then
    if any then complain "grep" (shownName ++ ": binary file matches".toList)
    return any
  Act.write 1 (s.report front (s.near ls) none begun)
  return any

def grep (style : Option Char) : Program := fun _ arguments => do
  let usage : Act Nat := do
    Act.write 2 "Usage: grep [OPTION]... PATTERNS [FILE]...\nTry 'grep --help' for more information.\n".toList
    return 2
  match grepOptions.read (withContext arguments) with
  | .error message =>
    complain "grep" message
    usage
  | .ok (given, operands) =>
    let o : Options := ⟨match style with
      | some c => (c, []) :: given
      | none => given⟩
    let mut texts : List Octets := (o.values 'e').flatMap (Text.splitOn '\n')
    for file in o.values 'f' do
      match ← input file with
      | .ok text => texts := texts ++ Octets.lines text
      | .error e =>
        complainOf "grep" file e
        return 2
    let explicit := o.has 'e' || o.has 'f'
    if !explicit && operands.isEmpty then usage
    else
      let patterns := if explicit then texts else Text.splitOn '\n' (operands.headD [])
      let operands := if explicit then operands else operands.drop 1
      match searchOf o patterns with
      | .error message =>
        complain "grep" message
        return 2
      | .ok s =>
        let recursive := o.has 'r' || o.has 'R'
        let starts := if !operands.isEmpty then operands else if recursive then [['.']] else [['-']]
        let mut any := false
        let mut failed := false
        for start in starts do
          if o.has 'q' && any then break
          let (names, below) ← searchedNames o start
          for name in names do
            if o.has 'q' && any then break
            let name := if operands.isEmpty && below then name.drop 2 else name
            let named := match o.last? "hH" with
              | some c => c = 'H'
              | none => below || starts.length > 1
            if !o.has 'q' && !o.has 'l' && !o.has 'L' && !o.has 'c' && s.most != some 1 && (← isOwnOutput name) then
              complain "grep" (name ++ ": input file is also the output".toList)
              failed := true
            else match ← input name with
              | .ok text =>
                if ← searchText o s name named any text then any := true
              | .error e =>
                if !o.has 's' then complain "grep" (name ++ [':', ' '] ++ e.reason.toList)
                failed := true
        return if failed && !(o.has 'q' && any) then 2 else if any then 0 else 1

end Graft.Shell.Tool
