/-
Tools that show texts, or parts of them, line by line.

Main statements: `Tool.cat`, `Tool.head`, `Tool.tail`, `Tool.wc`, `Tool.nl`, `Tool.tee`, `Tool.tac`, `Tool.rev`,
`Tool.fold`, `Extent.first_append_rest` (a text is its front and what follows it).
-/
import Graft.Shell.Tool.Creation

namespace Graft.Shell.Tool

open Program

/-! ### Whole texts -/

def catOptions : OptionTable := .ofString "AbeEnstTuv"
  [("show-all", 'A'), ("number-nonblank", 'b'), ("show-ends", 'E'), ("number", 'n'), ("squeeze-blank", 's'),
    ("show-tabs", 'T'), ("show-nonprinting", 'v')] true

/-- A byte that cannot be printed, as a sign. -/
def visible (c : Char) : Octets :=
  let low (n : Nat) : Octets := if n < 32 then ['^', Char.ofNat (n + 64)] else if n = 127 then ['^', '?'] else [Char.ofNat n]
  if c = '\n' || c = '\t' then [c]
  else if c.toNat ≥ 128 then ['M', '-'] ++ low (c.toNat - 128)
  else low c.toNat

/-- What a tool that shows texts has shown so far. -/
structure Shown where
  line : Nat := 0
  atStart : Bool := true
  blanks : Nat := 0

/-- A line as it is shown. -/
def showLine (o : Options) (s : Shown) (line : Octets) : Shown × Octets :=
  let isBlank := s.atStart && line == ['\n']
  if o.has 's' && isBlank && s.blanks ≥ 1 then ({ s with blanks := s.blanks + 1 }, [])
  else
    let numbered := s.atStart && (if o.has 'b' then !isBlank else o.has 'n')
    let n := if numbered then s.line + 1 else s.line
    let ends := o.has 'E' || o.has 'e' || o.has 'A'
    let tabs := o.has 'T' || o.has 't' || o.has 'A'
    let signs := o.has 'v' || o.has 'e' || o.has 't' || o.has 'A'
    let body := (Octets.chomp line).flatMap fun c =>
      if c = '\t' then (if tabs then ['^', 'I'] else [c]) else if signs then visible c else [c]
    let closed := line.getLast? = some '\n'
    (⟨n, closed, if isBlank then s.blanks + 1 else 0⟩,
      (if numbered then Octets.padLeft 6 (Text.ofNat n) ++ ['\t'] else []) ++ body ++
        (if closed then (if ends then ['$', '\n'] else ['\n']) else []))

/-- The lines of a text as they are shown. -/
def showLines (o : Options) (s : Shown) (text : Octets) : Shown × Octets :=
  (Octets.closedLines text).foldl (fun (s, out) line =>
    let (s, shown) := showLine o s line
    (s, out ++ shown)) (s, [])

/-- A file is also where the output goes, and has something to be read. -/
def isOwnOutput (name : Octets) : Act Bool := do
  let s ← get
  match ← Act.stream? 1 with
  | none => return false
  | some n =>
    match s.streams[n]? with
    | some (.file p position atEnd) =>
      let source : Option (Path × Nat) :=
        if name = ['-'] then
          match (s.env.descriptors.find? (·.1 == 0)).bind fun d => s.streams[d.2]? with
          | some (.file q at_ _) => some (q, at_)
          | _ => none
        else match s.locate name with
          | .ok q => some (q, 0)
          | .error _ => none
      match source, s.tree.get? p with
      | some (q, at_), some (.file c _) =>
        let size := (Act.contentOf c).length
        return q = p && at_ < size && (atEnd || at_ < position)
      | _, _ => return false
    | _ => return false

def cat : Program := fun _ => withOptions "cat" 1 catOptions fun o operands => do
  let mut status := 0
  let mut shown : Shown := {}
  let plain := o.given.all fun g => g.1 == 'u'
  for name in (if operands.isEmpty then [['-']] else operands) do
    if ← isOwnOutput name then
      complain "cat" (quotedIfNeeded name ++ ": input file is output file".toList)
      status := 1
    else match ← input name with
      | .ok text =>
        if plain then Act.write 1 text
        else
          let (s, out) := showLines o shown text
          shown := s
          Act.write 1 out
      | .error e =>
        complainOf "cat" name e
        status := 1
  return status

def tac : Program := fun _ => withOptions "tac" 1 (.ofString "" [] true) fun _ operands => do
  let mut status := 0
  for name in (if operands.isEmpty then [['-']] else operands) do
    match ← input name with
    | .ok text => Act.write 1 (Octets.closedLines text).reverse.flatten
    | .error e =>
      complain "tac" ("failed to open ".toList ++ quoted name ++ " for reading: ".toList ++ e.reason.toList)
      status := 1
  return status

def rev : Program := fun _ => withOptions "rev" 1 (.ofString "" [] true) fun _ operands => do
  let mut status := 0
  for name in (if operands.isEmpty then [['-']] else operands) do
    match ← input name with
    | .ok text =>
      Act.write 1 ((Octets.closedLines text).flatMap fun l => (Octets.chomp l).reverse ++ l.drop (Octets.chomp l).length)
    | .error e =>
      complain "rev" ("cannot open ".toList ++ name ++ [':', ' '] ++ e.reason.toList)
      status := 1
  return status

def teeOptions : OptionTable := .ofString "aip" [("append", 'a'), ("ignore-interrupts", 'i')] true

def tee : Program := fun _ => withOptions "tee" 1 teeOptions fun o operands => do
  let mut status := 0
  let mut streams : List Nat := []
  for name in operands do
    match ← Act.openName (if o.has 'a' then .append else .write) false name with
    | .ok n => streams := streams ++ [n]
    | .error e =>
      complainOf "tee" name e
      status := 1
  let text := (← Act.readAll? 0).getD []
  Act.write 1 text
  for n in streams do Act.writeTo n text
  return status

/-! ### Parts of texts -/

/-- How much of a text is meant, in lines or in bytes. -/
structure Extent where
  lines : Bool
  count : Nat
deriving DecidableEq, Repr

namespace Extent

/-- The units of a text. -/
def units (e : Extent) (text : Octets) : List Octets :=
  if e.lines then Octets.closedLines text else text.map fun c => [c]

/-- The units at the front. -/
def first (e : Extent) (text : Octets) : Octets := ((e.units text).take e.count).flatten

def rest (e : Extent) (text : Octets) : Octets := ((e.units text).drop e.count).flatten

theorem flatten_units (e : Extent) (text : Octets) : (e.units text).flatten = text := by
  unfold units
  split
  · exact Octets.flatten_closedLines text
  · induction text with
    | nil => rfl
    | cons c t ih => simp [ih]

/-- A text is its front and what follows it. -/
theorem first_append_rest (e : Extent) (text : Octets) : e.first text ++ e.rest text = text := by
  rw [first, rest, ← List.flatten_append, List.take_append_drop, flatten_units]

/-- All units but the last ones. -/
def butLast (e : Extent) (text : Octets) : Octets :=
  let us := e.units text
  (us.take (us.length - e.count)).flatten

/-- The last units. -/
def last (e : Extent) (text : Octets) : Octets :=
  let us := e.units text
  (us.drop (us.length - e.count)).flatten

end Extent

/-- Options for a part of a text in front of the others, as digits behind a dash. -/
def withDigits (sign : Char) (arguments : List Octets) : List Octets :=
  match arguments with
  | (c :: d :: ds) :: rest =>
    if c = sign && (d :: ds).all Char.isDigit then
      ['-', 'n'] :: (if sign = '+' then '+' :: d :: ds else d :: ds) :: rest
    else arguments
  | _ => arguments

def partOptions : OptionTable := .ofString "c:fFn:qsvz"
  [("bytes", 'c'), ("lines", 'n'), ("quiet", 'q'), ("silent", 'q'), ("verbose", 'v'), ("follow", 'f'),
    ("zero-terminated", 'z')] true

/-- The sign and the extent that the options give, or the text that gives none. -/
def extentOf (o : Options) : Except (String × Octets) (Option Char × Extent) :=
  match (o.given.filter fun g => g.1 == 'n' || g.1 == 'c').getLast? with
  | none => .ok (none, ⟨true, 10⟩)
  | some (letter, value) =>
    let (sign, digits) : Option Char × Octets := match value with
      | '-' :: t => (some '-', t)
      | '+' :: t => (some '+', t)
      | t => (none, t)
    match sizeOf? digits with
    | some n => .ok (sign, ⟨letter == 'n', n⟩)
    | none => .error (if letter = 'n' then "invalid number of lines: " else "invalid number of bytes: ", value)

/-- Shows a part of each input, under its name if there are more than one. -/
def showParts (program : String) (part : Option Char → Extent → Octets → Octets) (o : Options)
    (operands : List Octets) : Act Nat := do
  match extentOf o with
  | .error (reason, value) =>
    complain program (reason.toList ++ quoted value)
    return 1
  | .ok (sign, extent) =>
    let headed := (operands.length > 1 || o.has 'v') && !(o.has 'q' || o.has 's')
    let mut status := 0
    let mut isFirst := true
    for name in (if operands.isEmpty then [['-']] else operands) do
      let shown := if name = ['-'] then "standard input".toList else name
      let heading := (if isFirst then [] else ['\n']) ++ "==> ".toList ++ shown ++ " <==\n".toList
      match ← input name with
      | .ok text =>
        if headed then
          Act.write 1 heading
          isFirst := false
        let out := part sign extent text
        Act.write 1 out
        -- What was read too much of a file can be read again.
        if name = ['-'] && program = "head" then
          match ← Act.stream? 0 with
          | some n =>
            match (← get).streams[n]? with
            | some (.file p position atEnd) =>
              Act.setStream n (.file p (position - (text.length - out.length)) atEnd)
            | _ => pure ()
          | none => pure ()
      | .error .isDirectory =>
        if headed then
          Act.write 1 heading
          isFirst := false
        complain program ("error reading ".toList ++ quoted name ++ ": Is a directory".toList)
        status := 1
      | .error e =>
        complain program ("cannot open ".toList ++ quoted name ++ " for reading: ".toList ++ e.reason.toList)
        status := 1
    return status

def headPart (sign : Option Char) (e : Extent) (text : Octets) : Octets :=
  if sign = some '-' then e.butLast text else e.first text

def tailPart (sign : Option Char) (e : Extent) (text : Octets) : Octets :=
  if sign = some '+' then { e with count := e.count - 1 }.rest text else e.last text

def head : Program := fun _ arguments =>
  withOptions "head" 1 partOptions (showParts "head" headPart) (withDigits '-' arguments)

def tail : Program := fun _ arguments =>
  withOptions "tail" 1 partOptions (showParts "tail" tailPart) (withDigits '+' (withDigits '-' arguments))

/-! ### Counts -/

def wcOptions : OptionTable := .ofString "clLmw"
  [("bytes", 'c'), ("chars", 'm'), ("lines", 'l'), ("words", 'w'), ("max-line-length", 'L')] true

/-- The width of a line on a screen where tabs go to multiples of eight. -/
def screenWidth (line : Octets) : Nat :=
  line.foldl (fun n c => if c = '\t' then (n / 8 + 1) * 8 else if isPrintable c then n + 1 else n) 0

/-- The counts of a text: lines, words, characters, bytes, and the width of the widest line. -/
def countsOf (text : Octets) : List Nat :=
  [text.count '\n', (Octets.fields Octets.isSpace text).length, text.length, text.length,
    ((Octets.lines text).map screenWidth).foldl max 0]

/-- The counts that options ask for, out of all. -/
def chosen (o : Options) (counts : List Nat) : List Nat :=
  let letters := if o.given.isEmpty then ['l', 'w', 'c'] else o.given.map Prod.fst
  (("lwmcL".toList.zip counts).filter fun x => letters.contains x.1).map Prod.snd

/-- The number of digits that hold the sizes of all files. -/
def countWidth (names : List Octets) (columns : Nat) : Act Nat := do
  if names.length = 1 && columns = 1 then return 1
  let s ← get
  let streamSize (d : Nat) : Option Nat :=
    match (s.env.descriptors.find? (·.1 == d)).bind fun x => s.streams[x.2]? with
    | some (.file p _ _) =>
      match s.tree.get? p with
      | some (.file c _) => some (Act.contentOf c).length
      | _ => none
    | _ => none
  let mut total := 0
  let mut least := 1
  for name in names do
    if name = ['-'] then
      match streamSize 0 with
      | some n => total := total + n
      | none => least := 7
    else match s.entryAt? name with
      | .ok (some (.file c _)) => total := total + (Act.contentOf c).length
      | .ok (some .directory) => least := 7
      | _ => pure ()
  return max least (Text.ofNat total).length

def wc : Program := fun _ => withOptions "wc" 1 wcOptions fun o operands => do
  let names := if operands.isEmpty then [['-']] else operands
  let width ← countWidth names (chosen o [0, 0, 0, 0, 0]).length
  let row (counts : List Nat) (name : Octets) : Octets :=
    Text.join [' '] ((chosen o counts).map fun n => Octets.padLeft width (Text.ofNat n)) ++
      (if name.isEmpty then [] else ' ' :: name)
  let mut total : List Nat := [0, 0, 0, 0, 0]
  let mut status := 0
  for name in names do
    match ← input name with
    | .ok text =>
      let counts := countsOf text
      writeLine (row counts (if operands.isEmpty then [] else name))
      total := (total.zip counts).zipIdx.map fun ((a, b), i) => if i = 4 then max a b else a + b
    | .error e =>
      complainOf "wc" name e
      status := 1
      if e = .isDirectory then writeLine (row [0, 0, 0, 0, 0] name)
  if names.length > 1 then writeLine (row total "total".toList)
  return status

def nlOptions : OptionTable := .ofString "b:d:f:h:i:l:n:ps:v:w:"
  [("body-numbering", 'b'), ("line-increment", 'i'), ("number-format", 'n'), ("number-separator", 's'),
    ("starting-line-number", 'v'), ("number-width", 'w')] true

def nl : Program := fun _ => withOptions "nl" 1 nlOptions fun o operands => do
  let natural (c : Char) (default : Nat) : Nat := ((o.value? c).bind Octets.nat?).getD default
  let style := (o.value? 'b').getD ['t']
  let width := natural 'w' 6
  let separator := (o.value? 's').getD ['\t']
  let mut n := natural 'v' 1
  let mut status := 0
  for name in (if operands.isEmpty then [['-']] else operands) do
    match ← input name with
    | .ok text =>
      for line in Octets.lines text do
        if style = ['a'] || (style = ['t'] && !line.isEmpty) then
          let digits := Text.ofNat n
          let number := match (o.value? 'n').map String.ofList with
            | some "ln" => Octets.padRight width digits
            | some "rz" => List.replicate (width - digits.length) '0' ++ digits
            | _ => Octets.padLeft width digits
          writeLine (number ++ separator ++ line)
          n := n + natural 'i' 1
        else writeLine (List.replicate (width + separator.length) ' ' ++ line)
    | .error e =>
      complainOf "nl" name e
      status := 1
  return status

/-! ### Widths -/

def foldOptions : OptionTable := .ofString "bsw:" [("bytes", 'b'), ("spaces", 's'), ("width", 'w')] true

/-- A line in pieces of a width, for which the bound lasts.  On demand a piece ends behind its last blank. -/
def pieces (width : Nat) (atBlanks : Bool) : Nat → Octets → List Octets
  | 0, line => [line]
  | n + 1, line =>
    if line.length ≤ width then [line]
    else
      let piece := line.take width
      let cut := (piece.reverse.dropWhile (· != ' ')).length
      let length := if atBlanks && cut > 0 then cut else max width 1
      line.take length :: pieces width atBlanks n (line.drop length)

def fold : Program := fun _ => withOptions "fold" 1 foldOptions fun o operands => do
  let width := ((o.value? 'w').bind Octets.nat?).getD 80
  eachInput "fold" 1 operands fun _ text => do
    for line in Octets.closedLines text do
      let body := Octets.chomp line
      Act.write 1 (Text.join ['\n'] (pieces width (o.has 's') body.length body) ++ line.drop body.length)

end Graft.Shell.Tool
