/-
Scripts for editing lines.

A script is a list of steps.  Each has an address, which says on what lines it is done, and an edit.  Blocks are not
nested: a step opens one, another closes it.

Main statements: `EditStep`, `EditScript.ofOctets` (the steps of a text, or else what is wrong with it).
-/
import Graft.Shell.Printing
import Graft.Shell.Regex

namespace Graft.Shell.Tool

/-! ### Addresses -/

/-- A pattern; without an expression of its own it is the one that was used last. -/
structure EditPattern where
  regex : Option Regex
  ignoreCase : Bool

/-- A line, by its number or by its text. -/
inductive LinePlace where
  | number (n : Nat)
  | last
  | matching (p : EditPattern)
  /-- Every so many lines from a first one on. -/
  | every (first step : Nat)

/-- Where a range of lines ends. -/
inductive RangeStop where
  | place (p : LinePlace)
  | after (lines : Nat)
  /-- At the next multiple of a number. -/
  | multiple (n : Nat)

inductive LineAddress where
  | always
  | at (p : LinePlace)
  | range (start : LinePlace) (stop : RangeStop)
  /-- From the first line on, which may end the range as well. -/
  | upTo (stop : EditPattern)

/-! ### Edits -/

/-- A part of a text that is put in place of a match. -/
inductive Substitute where
  | text (o : Octets)
  | group (n : Nat)
  /-- From here on letters are changed, as a letter says. -/
  | case (letter : Char)

structure Substitution where
  pattern : EditPattern
  parts : List Substitute
  /-- The first match that is replaced. -/
  first : Nat
  /-- The matches behind it are replaced as well. -/
  all : Bool
  /-- The line is shown if something was replaced. -/
  shown : Bool
  file : Option Octets

inductive Edit where
  | open_
  | close
  | label (name : Octets)
  | substitute (s : Substitution)
  | exchangeCharacters (from_ to_ : Octets)
  | delete
  | deleteFirst
  | print
  | printFirst
  | printEscaped (width : Nat)
  | quit (status : Nat)
  | quitSilently (status : Nat)
  | next
  | appendNext
  | hold
  | appendToHold
  | get
  | appendHeld
  | exchange
  | append (text : Octets)
  | insert (text : Octets)
  | change (text : Octets)
  | number
  | branch (label : Octets)
  | branchIf (replaced : Bool) (label : Octets)
  | read (file : Octets)
  | write (file : Octets)
  | fileName
  | empty

structure EditStep where
  /-- By this the ranges of steps are told apart. -/
  index : Nat
  address : LineAddress
  negated : Bool
  edit : Edit

abbrev EditScript := List EditStep

namespace EditScript

/-! ### Faults -/

/-- What is wrong with a script, and how much of it was not read by then. -/
structure Fault where
  message : String
  unread : Nat
  /-- The fault has no place in the script. -/
  overall : Bool := false

/-- Reads something at the front of a text. -/
abbrev Reading (α : Type) := Octets → Except Fault (α × Octets)

def fault {α : Type} (message : String) (unread : Octets) : Except Fault α := .error ⟨message, unread.length, false⟩

/-! ### Patterns and places -/

def skipSpaces (t : Octets) : Octets := t.dropWhile fun c => c == ' ' || c == '\t'

def skipAllSpaces (t : Octets) : Octets := t.dropWhile Octets.isSpace

/-- The number of characters of a bracket expression behind its opening bracket, for which the bound lasts. -/
def bracketLength : Nat → Octets → Option Nat
  | 0, _ => none
  | _ + 1, [] => none
  | n + 1, '[' :: sign :: t =>
    if sign = ':' || sign = '.' || sign = '=' then
      match Text.locate? [sign, ']'] t with
      | some k => (bracketLength n (t.drop (k + 2))).map (· + k + 4)
      | none => none
    else (bracketLength n (sign :: t)).map (· + 1)
  | _ + 1, ']' :: _ => some 1
  | n + 1, _ :: t => (bracketLength n t).map (· + 1)

/-- A bracket expression behind its opening bracket, and what follows it.  A closing bracket that comes first belongs
to it. -/
def bracketAt (t : Octets) : Option (Octets × Octets) :=
  let front := match t with
    | '^' :: ']' :: _ => 2
    | '^' :: _ | ']' :: _ => 1
    | _ => 0
  (bracketLength (t.length + 1) (t.drop front)).map fun n => (t.take (front + n), t.drop (front + n))

/-- The text up to a delimiter, and what follows it; the bound lasts.  In a pattern an escaped `n` is a line feed, and
brackets may hold the delimiter. -/
def delimitedFrom (delimiter : Char) (isPattern brackets : Bool) : Nat → Octets → Option (Octets × Octets)
  | 0, _ => none
  | _ + 1, [] => none
  | _ + 1, '\\' :: [] => none
  | n + 1, '\\' :: c :: t =>
    let read : Octets :=
      if c = delimiter && !(c = '&' && !isPattern) then [c]
      else if c = '\n' && isPattern then ['\n']
      else ['\\', c]
    (delimitedFrom delimiter isPattern brackets n t).map fun (o, rest) => (read ++ o, rest)
  | n + 1, c :: t =>
    if c = delimiter then some ([], t)
    else if c = '\n' && isPattern then none
    else if c = '[' && brackets then
      match bracketAt t with
      | some (body, rest) =>
        (delimitedFrom delimiter isPattern brackets n rest).map fun (o, rest) =>
          ('[' :: Text.replace ['\\', delimiter] [delimiter] body ++ o, rest)
      | none => none
    else (delimitedFrom delimiter isPattern brackets n t).map fun (o, rest) => (c :: o, rest)

def delimited (delimiter : Char) (isPattern : Bool) (t : Octets) : Option (Octets × Octets) :=
  delimitedFrom delimiter isPattern (isPattern && delimiter != '[') (t.length + 1) t

/-- Codes of characters behind a backslash, in bases ten, eight and sixteen. -/
def withCodes : Nat → Octets → Octets
  | 0, t => t
  | n + 1, '\\' :: c :: t =>
    let coded (base length : Nat) : Octets :=
      let digits := (t.take length).takeWhile fun d => Octets.digitValue d < base
      if digits.isEmpty then '\\' :: c :: withCodes n t
      else
        let d := Char.ofNat (Octets.natOf base digits % 256)
        (if "*.[]\\^$/+?()|&".toList.contains d then ['\\', d] else [d]) ++ withCodes n (t.drop digits.length)
    match c with
    | 'x' => coded 16 2
    | 'o' => coded 8 3
    | 'd' => coded 10 3
    | c => '\\' :: c :: withCodes n t
  | n + 1, c :: t => c :: withCodes n t
  | _ + 1, [] => []

/-- The pattern of a text. -/
def pattern (extended ignoreCase : Bool) (text unread : Octets) : Except Fault EditPattern :=
  if text.isEmpty then .ok ⟨none, ignoreCase⟩
  else match Regex.ofOctets? ⟨extended, true⟩ (withCodes text.length text) with
    | .ok r => .ok ⟨some r, ignoreCase⟩
    | .error e => fault e unread

/-- The place of a line, if one is there. -/
def place? (extended : Bool) : Reading (Option LinePlace) := fun t => do
  let matching (delimiter : Char) (u : Octets) : Except Fault (Option LinePlace × Octets) := do
    match delimited delimiter true u with
    | none => fault "unterminated address regex" []
    | some (text, rest) =>
      let flags := rest.takeWhile fun c => c == 'I' || c == 'M'
      let rest := rest.drop flags.length
      return (some (.matching (← pattern extended (flags.contains 'I') text rest)), rest)
  match t with
  | '$' :: u => return (some .last, u)
  | '/' :: u => matching '/' u
  | '\\' :: c :: u => matching c u
  | c :: _ =>
    if !c.isDigit then return (none, t)
    else
      let digits := t.takeWhile Char.isDigit
      let rest := t.drop digits.length
      match skipSpaces rest with
      | '~' :: u =>
        let u := skipSpaces u
        let step := u.takeWhile Char.isDigit
        return (some (.every (Octets.natOf 10 digits) (Octets.natOf 10 step)), u.drop step.length)
      | _ => return (some (.number (Octets.natOf 10 digits)), rest)
  | [] => return (none, t)

/-- The end of a range, behind its comma. -/
def stop (extended : Bool) : Reading RangeStop := fun t => do
  let counted (u : Octets) (f : Nat → RangeStop) : Except Fault (RangeStop × Octets) :=
    let digits := u.takeWhile Char.isDigit
    if digits.isEmpty then fault "expected number"  u else .ok (f (Octets.natOf 10 digits), u.drop digits.length)
  match t with
  | '+' :: u => counted u .after
  | '~' :: u => counted u .multiple
  | t =>
    match ← place? extended t with
    | (some p, rest) => return (.place p, rest)
    | (none, rest) => fault "unexpected `,'" (rest.drop 1)

def address (extended : Bool) : Reading LineAddress := fun t => do
  match ← place? extended t with
  | (none, rest) => return (.always, rest)
  | (some p, rest) =>
    let isZero := p matches .number 0
    match skipAllSpaces rest with
    | ',' :: u =>
      let (s, rest) ← stop extended (skipAllSpaces u)
      match isZero, s with
      | false, s => return (.range p s, rest)
      | true, .place (.matching q) => return (.upTo q, rest)
      | true, _ => fault "invalid usage of line address 0" rest
    | _ => if isZero then fault "invalid usage of line address 0" (rest.drop 1) else return (.at p, rest)

/-! ### Substitutions -/

/-- The parts of a text that is put in place of matches; the bound lasts. -/
def substitutes : Nat → Octets → List Substitute
  | 0, _ => []
  | _ + 1, [] => []
  | n + 1, '&' :: t => .group 0 :: substitutes n t
  | n + 1, '\\' :: c :: t =>
    if c.isDigit then .group (Octets.digitValue c) :: substitutes n t
    else if "LUluE".toList.contains c then .case c :: substitutes n t
    else
      let d := match c with
        | 'n' => '\n'
        | 't' => '\t'
        | 'r' => '\r'
        | 'a' => '\x07'
        | 'f' => '\x0c'
        | 'v' => '\x0b'
        | c => c
      .text [d] :: substitutes n t
  | n + 1, c :: t => .text [c] :: substitutes n t

/-- What stands behind a substitution. -/
structure Flags where
  first : Option Nat := none
  all : Bool := false
  shown : Bool := false
  ignoreCase : Bool := false
  file : Option Octets := none

/-- The flags behind a substitution, for which the bound lasts. -/
def flags : Nat → Flags → Reading Flags
  | 0, f, t => .ok (f, t)
  | _ + 1, f, [] => .ok (f, [])
  | n + 1, f, c :: t =>
    match c with
    | 'g' => if f.all then fault "multiple `g' options to `s' command" t else flags n { f with all := true } t
    | 'p' => if f.shown then fault "multiple `p' options to `s' command" t else flags n { f with shown := true } t
    | 'i' | 'I' => flags n { f with ignoreCase := true } t
    | 'm' | 'M' => flags n f t
    | 'w' =>
      let name := (skipSpaces t).takeWhile (· != '\n')
      if name.isEmpty then fault "missing filename in r/R/w/W commands" []
      else .ok ({ f with file := some name }, (skipSpaces t).drop name.length)
    | c =>
      if c.isDigit then
        let digits := (c :: t).takeWhile Char.isDigit
        let rest := (c :: t).drop digits.length
        if f.first.isSome then fault "multiple number options to `s' command" rest
        else if Octets.natOf 10 digits = 0 then fault "number option to `s' command may not be zero" rest
        else flags n { f with first := some (Octets.natOf 10 digits) } rest
      else if c = ';' || c = '\n' || c = '\x7d' || c = '#' || c = ' ' || c = '\t' || c = '\r' then .ok (f, c :: t)
      else fault "unknown option to `s'" t

/-- A substitution behind its letter. -/
def substitution (extended : Bool) : Reading Substitution := fun t => do
  let unterminated : Except Fault (Substitution × Octets) := fault "unterminated `s' command" []
  match t with
  | [] => unterminated
  | delimiter :: t =>
    match delimited delimiter true t with
    | none => unterminated
    | some (text, rest) =>
      match delimited delimiter false rest with
      | none => unterminated
      | some (replacement, rest) =>
        let (f, rest) ← flags (rest.length + 1) {} rest
        let p ← pattern extended f.ignoreCase text rest
        let replacement := withCodes replacement.length replacement
        let parts := substitutes (replacement.length + 1) replacement
        let used := parts.foldl (fun n part => match part with
          | .group m => max n m
          | _ => n) 0
        match p.regex with
        | some r =>
          if r.groupCount < used then
            let digit := String.ofList (Text.ofNat used)
            fault (String.append (String.append "invalid reference \\" digit) " on `s' command's RHS") rest
        | none => pure ()
        return (⟨p, parts, f.first.getD 1, f.all, f.shown, f.file⟩, rest)

/-- The characters of a list to be exchanged. -/
def characterList : Octets → Octets
  | '\\' :: '\\' :: t => '\\' :: characterList t
  | '\\' :: 'n' :: t => '\n' :: characterList t
  | '\\' :: 't' :: t => '\t' :: characterList t
  | c :: t => c :: characterList t
  | [] => []

/-- An exchange of characters behind its letter. -/
def exchange : Reading Edit := fun t => do
  let unterminated : Except Fault (Edit × Octets) := fault "unterminated `y' command" []
  match t with
  | [] => unterminated
  | delimiter :: t =>
    match delimited delimiter false t with
    | none => unterminated
    | some (a, rest) =>
      match delimited delimiter false rest with
      | none => unterminated
      | some (b, rest) =>
        let (a, b) := (characterList a, characterList b)
        if a.length != b.length then fault "strings for `y' command are different lengths" rest
        else return (.exchangeCharacters a b, rest)

/-! ### Texts and names -/

/-- A text up to the end of its line.  An escaped line feed belongs to it. -/
def textLine : Octets → Octets × Octets
  | [] => (['\n'], [])
  | '\\' :: [] => (['\n'], [])
  | '\\' :: c :: t =>
    let d := match c with
      | 't' => '\t'
      | 'f' => '\x0c'
      | 'v' => '\x0b'
      | 'a' => '\x07'
      | c => c
    let (o, rest) := textLine t
    (d :: o, rest)
  | '\n' :: t => (['\n'], t)
  | c :: t =>
    let (o, rest) := textLine t
    (c :: o, rest)

/-- The text behind the letter of an edit. -/
def textOf : Reading Octets := fun t =>
  match skipSpaces t with
  | [] => fault "expected \\ after `a', `c' or `i'" []
  | '\\' :: u =>
    match skipSpaces u with
    | '\n' :: [] => fault "expected \\ after `a', `c' or `i'" []
    | '\n' :: v => .ok (textLine v)
    | [] => fault "expected \\ after `a', `c' or `i'" []
    | _ => .ok (textLine u)
  | u => .ok (textLine u)

/-- The name of a label. -/
def labelName (t : Octets) : Octets × Octets :=
  let t := skipSpaces t
  let name := t.takeWhile fun c => !(Octets.isSpace c || c == ';')
  (name, t.drop name.length)

/-- The name of a file behind the letter of an edit. -/
def fileName : Reading Octets := fun t =>
  let t := skipSpaces t
  let name := t.takeWhile (· != '\n')
  if name.isEmpty then fault "missing filename in r/R/w/W commands" t else .ok (name, t.drop name.length)

/-- A number behind the letter of an edit. -/
def optionalNumber (default : Nat) (t : Octets) : Nat × Octets :=
  let t := skipSpaces t
  let digits := t.takeWhile Char.isDigit
  (if digits.isEmpty then default else Octets.natOf 10 digits, t.drop digits.length)

/-! ### Steps -/

/-- What follows the end of an edit. -/
def endOfEdit (t : Octets) : Except Fault Octets :=
  match skipSpaces t with
  | [] => .ok []
  | '\n' :: u | ';' :: u => .ok u
  | '\r' :: u => .ok u
  | '#' :: u => .ok ('#' :: u)
  | '\x7d' :: u => .ok ('\x7d' :: u)
  | _ :: u => fault "extra characters after command" u

/-- The edit of a letter, and what follows it. -/
def editOf (extended : Bool) (a : LineAddress) (letter : Char) : Reading Edit := fun t => do
  let plain (e : Edit) : Except Fault (Edit × Octets) := do return (e, ← endOfEdit t)
  let isRange := match a with
    | .range .. | .upTo _ => true
    | _ => false
  match letter with
  | '\x7b' => return (.open_, t)
  | '\x7d' =>
    if a matches .always then return (.close, ← endOfEdit t)
    else fault "\x7d doesn't want any addresses" t
  | ':' =>
    if !(a matches .always) then fault ": doesn't want any addresses" t
    else
      let (name, rest) := labelName t
      if name.isEmpty then fault "\":\" lacks a label" rest else return (.label name, rest)
  | 's' =>
    let (s, rest) ← substitution extended t
    return (.substitute s, ← endOfEdit rest)
  | 'y' =>
    let (e, rest) ← exchange t
    return (e, ← endOfEdit rest)
  | 'd' => plain .delete
  | 'D' => plain .deleteFirst
  | 'p' => plain .print
  | 'P' => plain .printFirst
  | 'n' => plain .next
  | 'N' => plain .appendNext
  | 'h' => plain .hold
  | 'H' => plain .appendToHold
  | 'g' => plain .get
  | 'G' => plain .appendHeld
  | 'x' => plain .exchange
  | '=' => plain .number
  | 'F' => plain .fileName
  | 'z' => plain .empty
  | 'l' =>
    let (n, rest) := optionalNumber 70 t
    return (.printEscaped n, ← endOfEdit rest)
  | 'q' | 'Q' =>
    if isRange then fault "command only uses one address" t
    else
      let (n, rest) := optionalNumber 0 t
      return (if letter = 'q' then .quit n else .quitSilently n, ← endOfEdit rest)
  | 'a' | 'i' | 'c' =>
    let (text, rest) ← textOf t
    return (if letter = 'a' then .append text else if letter = 'i' then .insert text else .change text, rest)
  | 'b' | 't' | 'T' =>
    let (name, rest) := labelName t
    return (if letter = 'b' then .branch name else .branchIf (letter = 't') name, ← endOfEdit rest)
  | 'r' | 'w' =>
    let (name, rest) ← fileName t
    return (if letter = 'r' then .read name else .write name, ← endOfEdit rest)
  | c => fault (String.append (String.append "unknown command: `" c.toString) "'") t

/-- The steps of a text, for which the bound lasts, with a number of blocks open. -/
def steps (extended : Bool) (whole : Nat) : Nat → Nat → Nat → Octets → Except Fault EditScript
  | 0, _, _, _ => .ok []
  | n + 1, index, blocks, t => do
    match t.dropWhile fun c => Octets.isSpace c || c == ';' with
    | [] => if blocks > 0 then .error ⟨"unmatched `\x7b'", whole, false⟩ else return []
    | t =>
      let (a, rest) ← address extended t
      let rest := skipAllSpaces rest
      let negated := rest.head? = some '!'
      let rest := if negated then skipAllSpaces (rest.drop 1) else rest
      match rest with
      | [] => fault "missing command" []
      | '!' :: u => fault "multiple `!'s" u
      | '#' :: u =>
        if a matches .always then steps extended whole n index blocks (u.dropWhile (· != '\n'))
        else fault "comments don't accept any addresses" u
      | c :: u =>
        if c = '\x7d' && blocks = 0 then fault "unexpected `\x7d'" u
        let (e, rest) ← editOf extended a c u
        let blocks := if c = '\x7b' then blocks + 1 else if c = '\x7d' then blocks - 1 else blocks
        return ⟨index, a, negated, e⟩ :: (← steps extended whole n (index + 1) blocks rest)

/-- The label to which a step jumps. -/
def target? (s : EditStep) : Option Octets :=
  match s.edit with
  | .branch name | .branchIf _ name => if name.isEmpty then none else some name
  | _ => none

def isLabel (name : Octets) (s : EditStep) : Bool :=
  match s.edit with
  | .label n => n == name
  | _ => false

/-- The script of a text. -/
def ofOctets (extended : Bool) (t : Octets) : Except Fault EditScript := do
  let script ← steps extended t.length (t.length + 1) 0 0 t
  match (script.filterMap target?).find? fun name => !script.any (isLabel name) with
  | some name =>
    .error ⟨String.append (String.append "can't find label for jump to `" (String.ofList name)) "'", 0, true⟩
  | none => return script

end EditScript

end Graft.Shell.Tool
