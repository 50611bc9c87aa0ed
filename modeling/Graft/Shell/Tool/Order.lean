/-
Tools that put lines in order, and those that compare lines that are in order.

A sort goes by keys, parts of lines with a rule of comparison each, and at last by the bytes of the lines.

Main statements: `Tool.sort`, `Tool.uniq`, `Tool.comm`, `SortRule.sorted_perm` (no line is lost).
-/
import Graft.Shell.Printing
import Graft.Shell.Program
import Graft.Sorting

namespace Graft.Shell.Tool

open Program

/-! ### Comparisons -/

def isBlank (c : Char) : Bool := c == ' ' || c == '\t'

def skipBlanks (t : Octets) : Octets := t.dropWhile isBlank

/-- Bytes in their order. -/
def compareBytes (a b : Octets) : Ordering :=
  if a = b then .eq else if Text.le a b then .lt else .gt

/-- A decimal number at the front of a text: its sign, its digits, and those behind the point. -/
def decimalAt (t : Octets) : Bool × Octets × Octets :=
  let (negative, t) : Bool × Octets := match t with
    | '-' :: t => (true, t)
    | t => (false, t)
  let whole := t.takeWhile Char.isDigit
  match t.drop whole.length with
  | '.' :: u => (negative, whole, u.takeWhile Char.isDigit)
  | _ => (negative, whole, [])

/-- Compares the decimal numbers at the front of texts; a text without one counts as zero. -/
def compareDecimals (a b : Octets) : Ordering :=
  let (s, m, f) := decimalAt (skipBlanks a)
  let (t, n, g) := decimalAt (skipBlanks b)
  let places := max f.length g.length
  let value (negative : Bool) (whole fraction : Octets) : Int :=
    Octets.negateIf negative (Octets.natOf 10 (whole ++ fraction ++ List.replicate (places - fraction.length) '0'))
  compare (value s m f) (value t n g)

/-- The power of a thousand that stands behind a number, with the sign of the number. -/
def magnitude (t : Octets) : Int :=
  let t := skipBlanks t
  let (negative, whole, fraction) := decimalAt t
  if (whole ++ fraction).all (· == '0') then 0
  else
    let rest := t.dropWhile fun c => c.isDigit || c == '-' || c == '.'
    let letter := (rest.head?).getD ' '
    let power := if letter = 'k' then 1 else (("KMGTPEZYRQ".toList.findIdx? (· == letter)).map (· + 1)).getD 0
    Octets.negateIf negative power

/-- The month that a text begins with; zero if none. -/
def monthOf (t : Octets) : Nat :=
  let name := ((skipBlanks t).take 3).map Char.toUpper
  ((["JAN", "FEB", "MAR", "APR", "MAY", "JUN", "JUL", "AUG", "SEP", "OCT", "NOV", "DEC"].findIdx?
    fun m => m.toList == name).map (· + 1)).getD 0

/-- Compares numbers with exponents.  Texts without a number come first. -/
def compareFloats (a b : Octets) : Ordering :=
  match Printed.floatAt? (skipBlanks a), Printed.floatAt? (skipBlanks b) with
  | none, none => .eq
  | none, some _ => .lt
  | some _, none => .gt
  | some (x, _), some (y, _) =>
    match x.isNaN, y.isNaN with
    | true, true => .eq
    | true, false => .lt
    | false, true => .gt
    | false, false =>
      let place (x : Binary64) : Int := Octets.negateIf x.isNegative x.magnitude
      compare (place x) (place y)

/-- The place of a character among those of a version: a tilde comes before the end, letters before other signs. -/
def versionOrder : Option Char → Int
  | none => -1
  | some c => if c.isDigit then 0 else if c.isAlpha then c.toNat else if c = '~' then -2 else c.toNat + 256

/-- Compares versions, runs of digits as numbers; the bound lasts. -/
def compareVersionParts : Nat → Octets → Octets → Ordering
  | 0, _, _ => .eq
  | n + 1, a, b =>
    if a.isEmpty && b.isEmpty then .eq
    else
      let isPlain (c : Char) : Bool := !c.isDigit
      let p := a.takeWhile isPlain
      let q := b.takeWhile isPlain
      let at_ (o p : Octets) (i : Nat) : Int :=
        if i < p.length then versionOrder p[i]? else if o.length = p.length then -1 else 0
      let differing := (List.range (max p.length q.length)).findSome? fun i =>
        let o := compare (at_ a p i) (at_ b q i)
        if o = .eq then none else some o
      match differing with
      | some o => o
      | none =>
        let digitsA := (a.drop p.length).takeWhile Char.isDigit
        let digitsB := (b.drop q.length).takeWhile Char.isDigit
        match compare (Octets.natOf 10 digitsA) (Octets.natOf 10 digitsB) with
        | .eq => compareVersionParts n (a.drop (p.length + digitsA.length)) (b.drop (q.length + digitsB.length))
        | o => o

/-- A name without the endings behind its points. -/
def withoutEndings (name : Octets) : Octets :=
  let isEnding (part : Octets) : Bool :=
    part.head?.any (fun c => c.isAlpha || c == '~') && part.all fun c => c.isAlphanum || c == '~'
  match Text.splitOn '.' name with
  | first :: rest => Text.join ['.'] (first :: (rest.reverse.dropWhile isEnding).reverse)
  | [] => []

def compareVersions (a b : Octets) : Ordering :=
  let bound := a.length + b.length + 1
  let isHidden (t : Octets) : Bool := t.head? == some '.'
  if a.isEmpty || b.isEmpty then compare a.length b.length
  else if isHidden a != isHidden b then (if isHidden a then .lt else .gt)
  else (compareVersionParts bound (withoutEndings a) (withoutEndings b)).then (compareVersionParts bound a b)

/-! ### Keys -/

/-- A part of a line and the letters of the options by which it is compared. -/
structure SortKey where
  startField : Nat
  startChar : Nat
  stopField : Option Nat
  stopChar : Nat
  startBlanks : Bool
  stopBlanks : Bool
  letters : Octets

namespace SortKey

/-- A line behind some fields. -/
def afterFields (tab : Option Char) : Nat → Octets → Octets
  | 0, t => t
  | n + 1, t => match tab with
    | some c => afterFields tab n ((t.dropWhile (· != c)).drop 1)
    | none => afterFields tab n ((skipBlanks t).dropWhile (!isBlank ·))

/-- What follows the end of a key. -/
def afterStop (k : SortKey) (tab : Option Char) (t : Octets) : Octets :=
  match k.stopField, tab with
  | none, _ => []
  | some field, some c =>
    if k.stopChar = 0 then (afterFields tab (field - 1) t).dropWhile (· != c)
    else
      let rest := afterFields tab (field - 1) t
      (if k.stopBlanks then skipBlanks rest else rest).drop k.stopChar
  | some field, none =>
    if k.stopChar = 0 then afterFields none field t
    else
      let rest := afterFields none (field - 1) t
      (if k.stopBlanks then skipBlanks rest else rest).drop k.stopChar

/-- The part of a line that is the key. -/
def part (k : SortKey) (tab : Option Char) (t : Octets) : Octets :=
  let rest := afterFields tab (k.startField - 1) t
  let rest := (if k.startBlanks then skipBlanks rest else rest).drop (k.startChar - 1)
  rest.take (rest.length - (k.afterStop tab t).length)

/-- Compares two keys. -/
def compare (k : SortKey) (a b : Octets) : Ordering :=
  let has (c : Char) : Bool := k.letters.contains c
  let kept (t : Octets) : Octets :=
    let t := if has 'd' then t.filter fun c => c.isAlphanum || isBlank c
      else if has 'i' then t.filter isPrintable else t
    if has 'f' then t.map Char.toUpper else t
  let o :=
    if has 'n' then compareDecimals a b
    else if has 'g' then compareFloats a b
    else if has 'h' then (Ord.compare (magnitude a) (magnitude b)).then (compareDecimals a b)
    else if has 'M' then Ord.compare (monthOf a) (monthOf b)
    else if has 'V' then compareVersions a b
    else compareBytes (kept a) (kept b)
  if has 'r' then o.swap else o

def orderLetters : Octets := "bdfghiMnRrV".toList

/-- What is wrong with the text of a key. -/
def invalid (spec : Octets) (reason : String) : Octets :=
  reason.toList ++ ": invalid field specification ".toList ++ quoted spec

/-- A count of a key and what follows it. -/
def count (t : Octets) (reason : String) : Except Octets (Nat × Octets) :=
  let digits := t.takeWhile Char.isDigit
  if digits.isEmpty then .error (reason.toList ++ ": invalid count at start of ".toList ++ quoted t)
  else .ok (Octets.natOf 10 digits, t.drop digits.length)

/-- The key that a text describes. -/
def ofOctets (spec : Octets) : Except Octets SortKey := do
  let (field, t) ← count spec "invalid number at field start"
  if field = 0 then throw (invalid spec "field number is zero")
  let (char, t) ← match t with
    | '.' :: u => count u "invalid number after '.'"
    | u => pure (1, u)
  if char = 0 then throw (invalid spec "character offset is zero")
  let first := t.takeWhile orderLetters.contains
  let plain : SortKey := ⟨field, char, none, 0, first.contains 'b', false, first.filter (· != 'b')⟩
  match t.drop first.length with
  | [] => return plain
  | ',' :: t =>
    let (stop, t) ← count t "invalid number after ','"
    if stop = 0 then throw (invalid spec "field number is zero")
    let (stopChar, t) ← match t with
      | '.' :: u => count u "invalid number after '.'"
      | u => pure (0, u)
    let second := t.takeWhile orderLetters.contains
    if second.length < t.length then throw (invalid spec "stray character in field spec")
    return { plain with
      stopField := some stop, stopChar := stopChar, stopBlanks := second.contains 'b'
      letters := plain.letters ++ second.filter (· != 'b') }
  | _ => throw (invalid spec "stray character in field spec")

/-- A key without letters of its own has those of the whole sort. -/
def inherit (letters : Octets) (k : SortKey) : SortKey :=
  if k.letters.isEmpty && !k.startBlanks && !k.stopBlanks then
    { k with startBlanks := letters.contains 'b', stopBlanks := letters.contains 'b'
             letters := letters.filter (· != 'b') }
  else k

end SortKey

/-- How lines are put in order. -/
structure SortRule where
  keys : List SortKey
  tab : Option Char
  reversed : Bool
  /-- Lines with equal keys stay in the order in which they were. -/
  stable : Bool
  /-- Of lines with equal keys only the first is kept. -/
  unique : Bool

namespace SortRule

def compareKeys (r : SortRule) (a b : Octets) : Ordering :=
  r.keys.foldl (fun o k => o.then (k.compare (k.part r.tab a) (k.part r.tab b))) .eq

def compare (r : SortRule) (a b : Octets) : Ordering :=
  let o := r.compareKeys a b
  if o != .eq || (!r.keys.isEmpty && (r.unique || r.stable)) then o
  else if r.reversed then compareBytes b a else compareBytes a b

/-- The lines in order. -/
def sorted (r : SortRule) (lines : List Octets) : List Octets := sortBy (fun a b => r.compare a b != .gt) lines

/-- No line is lost. -/
theorem sorted_perm (r : SortRule) (lines : List Octets) : (r.sorted lines).Perm lines := sortBy_perm _ lines

/-- The first of each run of equal lines. -/
def firsts (r : SortRule) : List Octets → List Octets
  | [] => []
  | a :: as =>
    a :: match firsts r as with
      | b :: bs => if r.compare a b = .eq then bs else b :: bs
      | [] => []

/-- The first line that is out of order, with its number. -/
def disorder? (r : SortRule) (lines : List Octets) : Option (Nat × Octets) :=
  ((lines.zip (lines.drop 1)).zipIdx.find? fun ((a, b), _) =>
    let o := r.compare a b
    o == .gt || (r.unique && o == .eq)).map fun ((_, b), i) => (i + 2, b)

end SortRule

def sortOptions : OptionTable := .ofString "bdfghiMnRrVcCk:mo:sS:t:T:uy:z"
  [("ignore-leading-blanks", 'b'), ("dictionary-order", 'd'), ("ignore-case", 'f'), ("general-numeric-sort", 'g'),
    ("human-numeric-sort", 'h'), ("ignore-nonprinting", 'i'), ("month-sort", 'M'), ("numeric-sort", 'n'),
    ("reverse", 'r'), ("version-sort", 'V'), ("check", 'c'), ("key", 'k'), ("merge", 'm'), ("output", 'o'),
    ("stable", 's'), ("field-separator", 't'), ("unique", 'u')] true

/-- The character that parts fields. -/
def fieldSeparator (o : Options) : Except Octets (Option Char) :=
  match o.value? 't' with
  | none => .ok none
  | some [] => .error "empty tab".toList
  | some [c] => .ok (some c)
  | some ['\\', '0'] => .ok (some (Char.ofNat 0))
  | some t => .error ("multi-character tab ".toList ++ quoted t)

/-- The rule that options describe. -/
def sortRule (o : Options) : Except Octets SortRule := do
  let letters := (o.given.map Prod.fst).filter SortKey.orderLetters.contains
  let keys ← (o.values 'k').mapM SortKey.ofOctets
  let whole : SortKey := ⟨1, 1, none, 0, false, false, []⟩
  let keys := match keys with
    | [] => if letters.all (· == 'r') then [] else [whole]
    | keys => keys
  return ⟨keys.map (SortKey.inherit letters), ← fieldSeparator o, letters.contains 'r', o.has 's', o.has 'u'⟩

/-- The lines of all inputs, or nothing after a message. -/
def sortInput (names : List Octets) : Act (Option (List (List Octets))) := do
  let mut all : List (List Octets) := []
  for name in names do
    match ← input name with
    | .ok text => all := all ++ [Octets.lines text]
    | .error .isDirectory =>
      complain "sort" ("read failed: ".toList ++ quotedIfNeeded name ++ ": Is a directory".toList)
      return none
    | .error e =>
      complain "sort" ("cannot read: ".toList ++ quotedIfNeeded name ++ [':', ' '] ++ e.reason.toList)
      return none
  return some all

def sort : Program := fun _ => withOptions "sort" 2 sortOptions fun o operands => do
  match sortRule o with
  | .error message =>
    complain "sort" message
    return 2
  | .ok rule =>
    let names := if operands.isEmpty then [['-']] else operands
    let checks := o.has 'c' || o.has 'C'
    match checks, names with
    | true, _ :: extra :: _ =>
      complain "sort" ("extra operand ".toList ++ quoted extra ++ " not allowed with -".toList ++
        [if o.has 'c' then 'c' else 'C'])
      return 2
    | _, _ =>
      match ← sortInput names with
      | none => return 2
      | some inputs =>
        if checks then
          match rule.disorder? inputs.flatten with
          | some (n, line) =>
            if o.has 'c' then
              complain "sort" (names.headD [] ++ [':'] ++ Text.ofNat n ++ ": disorder: ".toList ++ line)
            return 1
          | none => return 0
        else
          let lines :=
            if o.has 'm' then inputs.foldl (fun a b => a.merge b fun x y => rule.compare x y != .gt) []
            else rule.sorted inputs.flatten
          let out := Octets.unlines (if rule.unique then rule.firsts lines else lines)
          match o.value? 'o' with
          | some name =>
            match ← replaceFile name out with
            | .ok () => return 0
            | .error e =>
              complain "sort" ("open failed: ".toList ++ quotedIfNeeded name ++ [':', ' '] ++ e.reason.toList)
              return 2
          | none =>
            Act.write 1 out
            return 0

/-! ### Repeated lines -/

def uniqOptions : OptionTable := .ofString "cdDf:is:uw:z"
  [("count", 'c'), ("repeated", 'd'), ("all-repeated", 'D'), ("skip-fields", 'f'), ("ignore-case", 'i'),
    ("skip-chars", 's'), ("unique", 'u'), ("check-chars", 'w'), ("zero-terminated", 'z')] true

/-- The part of a line that is compared. -/
def comparedPart (fields chars : Nat) (width : Option Nat) (line : Octets) : Octets :=
  let rest := (SortKey.afterFields none fields line).drop chars
  match width with
  | some w => rest.take w
  | none => rest

/-- Runs of lines that do not differ. -/
def runsOf (same : Octets → Octets → Bool) : List Octets → List (List Octets)
  | [] => []
  | a :: as =>
    match runsOf same as with
    | (b :: bs) :: runs => if same a b then (a :: b :: bs) :: runs else [a] :: (b :: bs) :: runs
    | runs => [a] :: runs

def uniq : Program := fun _ => withOptions "uniq" 1 uniqOptions fun o operands => do
  let number (c : Char) (what : String) : Except Octets (Option Nat) :=
    match o.value? c with
    | none => .ok none
    | some t =>
      match Octets.nat? t with
      | some n => .ok (some n)
      | none => .error (t ++ ": invalid number of ".toList ++ what.toList)
  let numbers : Except Octets (Option Nat × Option Nat × Option Nat) := do
    return (← number 'f' "fields to skip", ← number 's' "bytes to skip", ← number 'w' "bytes to compare")
  match operands, numbers with
  | _ :: _ :: extra :: _, _ => misuse "uniq" 1 ("extra operand ".toList ++ quoted extra)
  | _, .error message =>
    complain "uniq" message
    return 1
  | _, .ok (fields, chars, width) =>
    let name := operands.headD ['-']
    match ← input name with
    | .error .isDirectory =>
      complain "uniq" ("error reading ".toList ++ quoted name ++ ": Is a directory".toList)
      return 1
    | .error e =>
      complainOf "uniq" name e
      return 1
    | .ok text =>
      let part (line : Octets) : Octets :=
        let p := comparedPart (fields.getD 0) (chars.getD 0) width line
        if o.has 'i' then p.map Char.toLower else p
      let runs := runsOf (fun a b => part a == part b) (Octets.lines text)
      let shown (run : List Octets) : List Octets :=
        let repeated := run.length > 1
        if o.has 'D' then (if repeated then run else [])
        else if (o.has 'd' && !repeated) || (o.has 'u' && repeated) then []
        else
          let line := run.headD []
          [if o.has 'c' then Octets.padLeft 7 (Text.ofNat run.length) ++ ' ' :: line else line]
      let out := Octets.unlines (runs.flatMap shown)
      match operands with
      | [_, target] =>
        match ← replaceFile target out with
        | .ok () => return 0
        | .error e =>
          complainOf "uniq" target e
          return 1
      | _ =>
        Act.write 1 out
        return 0

/-! ### Common lines -/

def commOptions : OptionTable := .ofString "123OTXYz"
  [("output-delimiter", 'O'), ("total", 'T'), ("check-order", 'X'), ("nocheck-order", 'Y')] true

/-- Two lists of lines, and what was found out about them. -/
structure Comparison where
  /-- A line was in one list only. -/
  unpaired : Bool
  /-- The lists in which an order was seen to be wrong. -/
  disordered : List Nat
  out : Octets

/-- Notes that two lines of a list are out of order. -/
def Comparison.check (c : Comparison) (list : Nat) (lines : List Octets) : Comparison :=
  match lines with
  | a :: b :: _ =>
    if c.unpaired && !c.disordered.contains list && compareBytes a b = .gt then
      { c with disordered := c.disordered ++ [list] }
    else c
  | _ => c

/-- Goes through two lists of lines, for which the bound lasts.  A line of a column is written by `column`. -/
def compareLines (column : Nat → Octets → Octets) : Nat → List Octets → List Octets → Comparison → Comparison
  | 0, _, _, c => c
  | n + 1, as, bs, c =>
    let one (list : Nat) (line : Octets) (c : Comparison) : Comparison :=
      { c with unpaired := true, out := c.out ++ column list line }
    match as, bs with
    | [], [] => c
    | a :: rest, [] => compareLines column n rest [] ((one 1 a c).check 1 as)
    | [], b :: rest => compareLines column n [] rest ((one 2 b c).check 2 bs)
    | a :: as', b :: bs' =>
      match compareBytes a b with
      | .lt => compareLines column n as' bs ((one 1 a c).check 1 as)
      | .gt => compareLines column n as bs' ((one 2 b c).check 2 bs)
      | .eq => compareLines column n as' bs' ((({ c with out := c.out ++ column 3 a }).check 1 as).check 2 bs)

def comm : Program := fun _ => withOptions "comm" 1 commOptions fun o operands => do
  match operands with
  | [] => misuse "comm" 1 "missing operand".toList
  | [a] => misuse "comm" 1 ("missing operand after ".toList ++ quoted a)
  | _ :: _ :: extra :: _ => misuse "comm" 1 ("extra operand ".toList ++ quoted extra)
  | [a, b] =>
    match ← input a with
    | .error e =>
      complainOf "comm" a e
      return 1
    | .ok first =>
      match ← input b with
      | .error e =>
        complainOf "comm" b e
        return 1
      | .ok second =>
        let tabs (hidden : List Char) : Octets := (hidden.filter fun c => !o.has c).map fun _ => '\t'
        let column (n : Nat) (line : Octets) : Octets :=
          let line := line ++ ['\n']
          if n = 1 then (if o.has '1' then [] else line)
          else if n = 2 then (if o.has '2' then [] else tabs ['1'] ++ line)
          else if o.has '3' then [] else tabs ['1', '2'] ++ line
        let (as, bs) := (Octets.lines first, Octets.lines second)
        let c := compareLines column (as.length + bs.length + 1) as bs ⟨false, [], []⟩
        Act.write 1 c.out
        if o.has 'Y' || c.disordered.isEmpty then return 0
        else
          for list in c.disordered do
            complain "comm" ("file ".toList ++ Text.ofNat list ++ " is not in sorted order".toList)
          complain "comm" "input is not in sorted order".toList
          return 1

end Graft.Shell.Tool
