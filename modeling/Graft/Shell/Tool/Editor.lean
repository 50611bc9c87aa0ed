/-
A tool that edits lines by a script.

The script is run once for each line.  It works on the present line and on one that is held, and what it leaves of the
present line is shown at its end.

Main statements: `Tool.sed`, `Editor.substituted` (a line with matches replaced), `Editor.runAll`.
-/
import Graft.Shell.Tool.EditScript
import Graft.Shell.Tool.Names

namespace Graft.Shell.Tool

open Program

/-- A line of the input. -/
structure InputLine where
  text : Octets
  /-- A line end stood behind it. -/
  closed : Bool
  file : Octets

/-- What a script works on. -/
structure Editor where
  input : List InputLine
  line : InputLine
  number : Nat
  held : Octets
  heldClosed : Bool
  /-- Texts that are shown behind the line. -/
  queued : List Octets
  out : Octets
  /-- The output lacks a line end. -/
  owed : Bool
  /-- Something was replaced in the line. -/
  replaced : Bool
  /-- The steps whose ranges have begun, with the numbers of their last lines. -/
  ranges : List (Nat × Option Nat)
  used : Option Regex
  /-- What was written to files. -/
  written : List (Octets × Octets)

/-- How a script is run. -/
structure EditRun where
  script : EditScript
  /-- Lines are only shown on demand. -/
  silent : Bool
  lineEnd : Char
  /-- The contents of the files that the script may read. -/
  files : List (Octets × Octets)

namespace Editor

/-- How the work on a line ends. -/
inductive Ending where
  | finish
  /-- The line is not shown. -/
  | drop
  /-- The script is run again on what is left of the line. -/
  | again
  | quit (status : Nat) (shown : Bool)
  /-- An empty pattern was used before any other. -/
  | noPattern

abbrev EditM := ExceptT Ending (StateM Editor)

/-- The steps whose ranges begin before the first line. -/
def openRanges (script : EditScript) : List (Nat × Option Nat) :=
  script.filterMap fun s => if s.address matches .upTo _ then some (s.index, none) else none

def start (script : EditScript) (input : List InputLine) : Editor :=
  ⟨input, ⟨[], true, []⟩, 0, [], true, [], [], false, false, openRanges script, none, []⟩

/-! ### Output -/

/-- Shows a text, behind the line end that is still owed. -/
def emit (o : Octets) : EditM Unit := modify fun e =>
  { e with out := e.out ++ (if e.owed then ['\n'] else []) ++ o, owed := false }

/-- Shows a line. -/
def emitLine (r : EditRun) (l : Octets) (closed : Bool) : EditM Unit := do
  emit (l ++ if closed then [r.lineEnd] else [])
  modify fun e => { e with owed := !closed }

/-- Writes the line to a file. -/
def writeFile (r : EditRun) (name : Octets) : EditM Unit := do
  let l := (← get).line
  if name = "/dev/stdout".toList then emitLine r l.text l.closed
  else modify fun e => { e with written := e.written ++ [(name, l.text ++ if l.closed then [r.lineEnd] else [])] }

/-- Shows what stands behind the line. -/
def flush : EditM Unit := do
  for o in (← get).queued do
    if !o.isEmpty then emit o
  modify fun e => { e with queued := [] }

/-- The line as it is shown at the end of the work on it. -/
def showLine (r : EditRun) : EditM Unit := do
  let l := (← get).line
  if !r.silent then emitLine r l.text l.closed

/-- A byte that cannot be printed as an escape. -/
def escapedByte (c : Char) : Octets := if c = '\\' then ['\\', '\\'] else if isPrintable c then [c] else escaped c

/-- Escapes in lines of a width; the bound lasts. -/
def wrapped (width : Nat) : Nat → List Octets → Nat → Octets
  | 0, _, _ => []
  | _ + 1, [], _ => []
  | n + 1, o :: os, column =>
    if width > 1 && column + o.length > width - 1 then ['\\', '\n'] ++ wrapped width n (o :: os) 0
    else o ++ wrapped width n os (column + o.length)

/-! ### Lines -/

/-- Takes the next line; `f` joins it to the present one. -/
def advance (f : Octets → Octets → Octets) : EditM Unit := do
  flush
  match (← get).input with
  | [] => throw .finish
  | l :: rest =>
    modify fun e => { e with
      input := rest, number := e.number + 1, line := { l with text := f e.line.text l.text } }

def setText (o : Octets) : EditM Unit := modify fun e => { e with line := { e.line with text := o } }

/-! ### Addresses -/

/-- The expression of a pattern, which is then the one used last. -/
def regexOf (p : EditPattern) : EditM Regex := do
  match p.regex, (← get).used with
  | some r, _ =>
    modify fun e => { e with used := some r }
    return r
  | none, some r => return r
  | none, none => throw .noPattern

def matchesPattern (p : EditPattern) : EditM Bool := do
  let r ← regexOf p
  return r.isMatch p.ignoreCase (← get).line.text

def isPlace (p : LinePlace) : EditM Bool := do
  let e ← get
  match p with
  | .number n => return e.number = n
  | .last => return e.input.isEmpty
  | .matching p => matchesPattern p
  | .every first step =>
    return if step = 0 then e.number = first else e.number ≥ first && (e.number - first) % step = 0

def closeRange (index : Nat) : EditM Unit := modify fun e => { e with ranges := e.ranges.filter (·.1 != index) }

def openRange (index : Nat) (last : Option Nat) : EditM Unit :=
  modify fun e => { e with ranges := (index, last) :: e.ranges }

/-- The line begins a range. -/
def begins (index : Nat) (first : LinePlace) (stop : RangeStop) : EditM Bool := do
  if !(← isPlace first) then return false
  let n := (← get).number
  let upTo (last : Nat) : EditM Unit := if n < last then openRange index (some last) else pure ()
  match stop with
  | .place (.number m) => upTo m
  | .place _ => openRange index none
  | .after k => upTo (n + k)
  | .multiple k => upTo (if k = 0 then n else (n + k - 1) / k * k)
  return true

/-- The line is in a range. -/
def inRange (index : Nat) (first : LinePlace) (stop : RangeStop) : EditM Bool := do
  match (← get).ranges.find? (·.1 == index) with
  | none => begins index first stop
  | some (_, some last) =>
    let n := (← get).number
    if last ≤ n then closeRange index
    if n ≤ last then return true
    begins index first stop
  | some (_, none) =>
    match stop with
    | .place p =>
      if ← isPlace p then closeRange index
    | _ => closeRange index
    return true

/-- The step is done on the line. -/
def isSelected (s : EditStep) : EditM Bool := do
  let holds ← match s.address with
    | .always => pure true
    | .at p => isPlace p
    | .range first stop => inRange s.index first stop
    | .upTo p => do
      if (← get).ranges.any (·.1 == s.index) then
        if ← matchesPattern p then closeRange s.index
        pure true
      else pure false
  return holds != s.negated

/-! ### Substitutions -/

/-- Letters changed by the case that is on, and the first one by the case for one letter. -/
def cased (on once : Option Char) (o : Octets) : Octets :=
  let change (c : Option Char) (d : Char) : Char :=
    if c = some 'U' || c = some 'u' then d.toUpper else if c = some 'L' || c = some 'l' then d.toLower else d
  match o with
  | [] => []
  | d :: t => (if once.isSome then change once d else change on d) :: t.map (change on)

/-- What is put in place of a match. -/
def replacement (line : Octets) (m : Regex.Match) (parts : List Substitute) : Octets :=
  (parts.foldl (fun ((out, on, once) : Octets × Option Char × Option Char) part =>
    let write (o : Octets) : Octets × Option Char × Option Char :=
      (out ++ cased on once o, on, if o.isEmpty then once else none)
    match part with
    | .text o => write o
    | .group 0 => write ((line.drop m.start).take (m.stop - m.start))
    | .group n => write ((Regex.groupText line m.groups n).getD [])
    | .case 'E' => (out, none, none)
    | .case c => if c = 'u' || c = 'l' then (out, on, some c) else (out, some c, once)) ([], none, none)).1

/-- The rest of a line with matches replaced, from a place on; the bound lasts.  An empty match right behind another
match does not count. -/
def substituteFrom (s : Substitution) (r : Regex) (line : Octets) :
    Nat → (start count : Nat) → (last : Option Nat) → Octets × Bool
  | 0, start, _, _ => (line.drop start, false)
  | n + 1, start, count, last =>
    if start > line.length then ([], false)
    else match r.search? s.pattern.ignoreCase line start with
      | none => (line.drop start, false)
      | some m =>
        let before := (line.drop start).take (m.start - start)
        let isEmpty := m.start = m.stop
        let one := if isEmpty then (line.drop m.stop).take 1 else []
        let next := if isEmpty then m.stop + 1 else m.stop
        if isEmpty && last = some m.start then
          let (rest, replaced) := substituteFrom s r line n next count none
          (before ++ one ++ rest, replaced)
        else if count + 1 < s.first then
          let (rest, replaced) := substituteFrom s r line n next (count + 1) (some m.stop)
          (before ++ (line.drop m.start).take (m.stop - m.start) ++ one ++ rest, replaced)
        else
          let new := replacement line m s.parts
          if s.all then
            (before ++ new ++ one ++ (substituteFrom s r line n next (count + 1) (some m.stop)).1, true)
          else (before ++ new ++ line.drop m.stop, true)

/-- A line with matches replaced, and whether there were any. -/
def substituted (s : Substitution) (r : Regex) (line : Octets) : Octets × Bool :=
  substituteFrom s r line (line.length + 2) 0 0 none

/-! ### Steps -/

/-- The steps behind the end of a block. -/
def afterBlock : Nat → EditScript → EditScript
  | _, [] => []
  | depth, s :: rest =>
    match s.edit with
    | .open_ => afterBlock (depth + 1) rest
    | .close => if depth = 0 then rest else afterBlock (depth - 1) rest
    | _ => afterBlock depth rest

/-- The steps from a label on; without a name none. -/
def fromLabel (script : EditScript) (name : Octets) : EditScript :=
  if name.isEmpty then [] else script.dropWhile fun s => !EditScript.isLabel name s

/-- Does an edit; the value is a label to go on from. -/
def doEdit (r : EditRun) (s : EditStep) : EditM (Option Octets) := do
  let e ← get
  let text := e.line.text
  match s.edit with
  | .open_ | .close | .label _ => pure ()
  | .substitute t =>
    let regex ← regexOf t.pattern
    let (new, replaced) := substituted t regex text
    if replaced then
      setText new
      modify fun e => { e with replaced := true }
      if t.shown then emitLine r new e.line.closed
      match t.file with
      | some name => writeFile r name
      | none => pure ()
  | .exchangeCharacters a b =>
    setText (text.map fun c =>
      match (a.zip b).find? fun x => x.1 == c with
      | some (_, d) => d
      | none => c)
  | .delete => throw .drop
  | .deleteFirst =>
    match Text.cut? '\n' text with
    | some (_, rest) =>
      setText rest
      throw .again
    | none => throw .drop
  | .print => emitLine r text e.line.closed
  | .printFirst => emitLine r (Text.firstLine text).1 true
  | .printEscaped width =>
    let signs := text.map escapedByte
    emit (wrapped width (2 * signs.length + 1) signs 0 ++ ['$', '\n'])
  | .quit status => throw (.quit status true)
  | .quitSilently status => throw (.quit status false)
  | .next =>
    if e.input.isEmpty then throw .finish
    showLine r
    advance fun _ l => l
  | .appendNext =>
    if e.input.isEmpty then throw .finish
    advance fun o l => o ++ ['\n'] ++ l
  | .hold => set { e with held := text, heldClosed := e.line.closed }
  | .appendToHold => set { e with held := e.held ++ ['\n'] ++ text, heldClosed := e.line.closed }
  | .get => set { e with line := { e.line with text := e.held, closed := e.heldClosed } }
  | .appendHeld => set { e with line := { e.line with text := text ++ ['\n'] ++ e.held, closed := e.heldClosed } }
  | .exchange =>
    set { e with held := text, heldClosed := e.line.closed, line := { e.line with text := e.held, closed := e.heldClosed } }
  | .append o => set { e with queued := e.queued ++ [o] }
  | .insert o => emit o
  | .change o =>
    if !(e.ranges.any (·.1 == s.index)) || s.negated then emit o
    throw .drop
  | .number => emit (Text.ofNat e.number ++ ['\n'])
  | .branch name => return some name
  | .branchIf wanted name =>
    modify fun e => { e with replaced := false }
    if e.replaced = wanted then return some name
  | .read name =>
    let content : Option Octets := (r.files.find? fun f => f.1 == name).map Prod.snd
    set { e with queued := e.queued ++ [content.getD []] }
  | .write name => writeFile r name
  | .fileName => emit (e.line.file ++ ['\n'])
  | .empty => setText []
  return none

/-- Runs steps on the line, for which the bound lasts. -/
def runSteps (r : EditRun) : Nat → EditScript → EditM Unit
  | 0, _ => return
  | _ + 1, [] => return
  | n + 1, s :: rest => do
    let selected ← isSelected s
    if !selected then runSteps r n (if s.edit matches .open_ then afterBlock 0 rest else rest)
    else match ← doEdit r s with
      | some name => runSteps r n (fromLabel r.script name)
      | none => runSteps r n rest

/-- The most steps on one line. -/
def maxSteps : Nat := 1000000

/-- The status and, if no pattern was there to be used again, a fault. -/
abbrev Result := Option Nat × Bool

/-- Works on all lines, for which the bound lasts; `fresh` says that the next line is to be read. -/
def runAll (r : EditRun) : Nat → Bool → StateM Editor Result
  | 0, _ => return (none, false)
  | n + 1, fresh => do
    if fresh && (← get).input.isEmpty then return (none, false)
    let ending ← ExceptT.run do
      if fresh then
        advance fun _ l => l
        modify fun e => { e with replaced := false }
      runSteps r maxSteps r.script
    let close (shown : Bool) : StateM Editor Unit := do
      let _ ← ExceptT.run (if shown then showLine r else pure ())
      let _ ← ExceptT.run flush
    match ending with
    | .ok () | .error .finish =>
      close true
      runAll r n true
    | .error .drop =>
      close false
      runAll r n true
    | .error .again =>
      close false
      runAll r n false
    | .error (.quit status shown) =>
      if shown then close true
      return (some status, false)
    | .error .noPattern => return (some 1, true)

end Editor

/-! ### Files -/

/-- The lines of a text. -/
def inputLines (lineEnd : Char) (file text : Octets) : List InputLine :=
  let parts := Text.splitOn lineEnd text
  let closed := parts.dropLast.map fun p => (⟨p, true, file⟩ : InputLine)
  match parts.getLast? with
  | some [] | none => closed
  | some p => closed ++ [⟨p, false, file⟩]

def sedOptions : OptionTable := .ofString "nrEsi::e:f:uzl:"
  [("quiet", 'n'), ("silent", 'n'), ("regexp-extended", 'E'), ("separate", 's'), ("in-place", 'i'), ("expression", 'e'),
    ("file", 'f'), ("null-data", 'z'), ("unbuffered", 'u'), ("line-length", 'l')] true

/-- The files that a script reads. -/
def filesRead (script : EditScript) : List Octets :=
  script.filterMap fun s => match s.edit with
    | .read name => some name
    | _ => none

/-- The files that a script writes. -/
def filesWritten (script : EditScript) : List Octets :=
  script.filterMap fun s => match s.edit with
    | .write name => some name
    | .substitute t => t.file
    | _ => none

/-- The text of the script that options give, or nothing after a message. -/
def scriptText (o : Options) (operands : List Octets) : Act (Option (Octets × List Octets)) := do
  let sources := o.given.filter fun g => g.1 == 'e' || g.1 == 'f'
  if sources.isEmpty then return operands.head?.map fun t => (t, operands.drop 1)
  let mut texts : List Octets := []
  for (letter, value) in sources do
    if letter = 'e' then texts := texts ++ [value]
    else match ← input value with
      | .ok text => texts := texts ++ [Octets.chomp text]
      | .error e =>
        complain "sed" ("couldn't open file ".toList ++ value ++ [':', ' '] ++ e.reason.toList)
        return none
  return some (Text.join ['\n'] texts, operands)

/-- The name of a copy of a file, by a suffix or by a pattern with stars for its name. -/
def backupName (suffix name : Octets) : Octets :=
  let base := lastPart name
  let dir := name.take (name.length - base.length)
  if suffix.contains '*' then
    let new := Text.replace ['*'] base suffix
    if new.contains '/' then new else dir ++ new
  else name ++ suffix

/-- Puts the edited text in place of a file. -/
def replaceInPlace (suffix name old new : Octets) : Act Unit := do
  if !suffix.isEmpty then
    let _ ← replaceFile (backupName suffix name) old
  let _ ← replaceFile name new

def writtenTo (e : Editor) (name : Octets) : Octets := (e.written.filter (·.1 == name)).flatMap Prod.snd

/-- Runs a script on inputs. -/
def edit (o : Options) (r : EditRun) (operands : List Octets) : Act Nat := do
  let inPlace := o.value? 'i'
  let separate := inPlace.isSome || o.has 's'
  let mut status := 0
  let mut editor := Editor.start r.script []
  let mut stopped : Option Editor.Result := none
  let mut pending : List InputLine := []
  let names := if operands.isEmpty then [['-']] else operands
  for name in names do
    if stopped.isNone then
      match ← (if inPlace.isSome then Act.contents name else input name) with
      | .error .isDirectory =>
        if inPlace.isSome then complain "sed" ("couldn't edit ".toList ++ name ++ ": not a regular file".toList)
        else
          complain "sed" ("read error on ".toList ++ name ++ ": Is a directory".toList)
          stopped := some (some 4, false)
        status := 4
      | .error e =>
        complain "sed" ("can't read ".toList ++ name ++ [':', ' '] ++ e.reason.toList)
        status := 2
      | .ok text =>
        let ls := inputLines r.lineEnd name text
        if separate then
          let fresh := { editor with
            input := ls, number := 0, ranges := Editor.openRanges r.script, out := if inPlace.isSome then [] else editor.out
            owed := if inPlace.isSome then false else editor.owed }
          let (result, e) := (Editor.runAll r Editor.maxSteps true).run fresh
          editor := e
          if inPlace.isSome then
            replaceInPlace (inPlace.getD []) name text e.out
            editor := { editor with out := [], owed := false }
          if result.1.isSome then stopped := some result
        else pending := pending ++ ls
  if !separate then
    let (result, e) := (Editor.runAll r Editor.maxSteps true).run { editor with input := pending }
    editor := e
    if result.1.isSome then stopped := some result
  if inPlace.isNone then Act.write 1 editor.out
  for name in (filesWritten r.script) do
    if name = "/dev/stderr".toList then Act.write 2 (writtenTo editor name)
    else if name != "/dev/stdout".toList then
      let _ ← replaceFile name (writtenTo editor name)
  match stopped with
  | some (_, true) =>
    complain "sed" "-e expression #1, char 0: no previous regular expression".toList
    return 1
  | some (some n, false) => return n
  | _ => return status

/-- What is wrong with a script, with the place. -/
def scriptFault (o : Options) (text : Octets) (f : EditScript.Fault) : Octets :=
  let read := text.length - f.unread
  let place : Octets :=
    if f.overall then []
    else match o.value? 'f', o.value? 'e' with
      | some file, none =>
        "file ".toList ++ file ++ " line ".toList ++ Text.ofNat ((text.take read).count '\n' + 1) ++ [':', ' ']
      | _, _ => "-e expression #1, char ".toList ++ Text.ofNat read ++ [':', ' ']
  place ++ f.message.toList

def sed : Program := fun _ arguments => do
  let usage : Act Nat := do
    Act.write 2 "Usage: sed [OPTION]... \x7bscript-only-if-no-other-script\x7d [input-file]...\n".toList
    return 1
  match sedOptions.read arguments with
  | .error message =>
    complain "sed" message
    usage
  | .ok (given, operands) =>
    let o : Options := ⟨given⟩
    match ← scriptText o operands with
    | none => if operands.isEmpty && !(o.has 'e' || o.has 'f') then usage else return 4
    | some (text, operands) =>
      let silentByText := Text.startsWith text ['#', 'n', '\n'] || text = ['#', 'n']
      match EditScript.ofOctets (o.has 'r' || o.has 'E') text with
      | .error f =>
        complain "sed" (scriptFault o text f)
        return if f.overall then 4 else 1
      | .ok script =>
        if o.has 'i' && operands.isEmpty then
          complain "sed" "no input files".toList
          return 4
        let mut files : List (Octets × Octets) := []
        for name in filesRead script do
          match ← Act.contents name with
          | .ok t => files := files ++ [(name, t)]
          | .error _ => pure ()
        edit o ⟨script, o.has 'n' || silentByText, if o.has 'z' then Char.ofNat 0 else '\n', files⟩ operands

end Graft.Shell.Tool
