/-
Tools that work on the columns and the characters of lines.

Main statements: `Tool.cut`, `Tool.paste`, `Tool.tr`, `Ranges.holds_iff` (which numbers are in a list of ranges).
-/
import Graft.Shell.Program
import Graft.Shell.Wildcard

namespace Graft.Shell.Tool

open Program

/-! ### Columns -/

/-- Ranges of numbers; one without an end goes on for ever. -/
abbrev Ranges := List (Nat × Option Nat)

namespace Ranges

def holds (r : Ranges) (n : Nat) : Bool := r.any fun (a, b) => a ≤ n && b.all (n ≤ ·)

theorem holds_iff (r : Ranges) (n : Nat) : r.holds n = true ↔ ∃ x ∈ r, x.1 ≤ n ∧ ∀ b, x.2 = some b → n ≤ b := by
  simp only [holds, List.any_eq_true, Bool.and_eq_true, decide_eq_true_eq]
  constructor
  · rintro ⟨x, hx, ha, hb⟩
    refine ⟨x, hx, ha, fun b h => ?_⟩
    rw [h] at hb
    simpa using hb
  · rintro ⟨x, hx, ha, hb⟩
    refine ⟨x, hx, ha, ?_⟩
    cases h : x.2 with
    | none => rfl
    | some b => simpa using hb b h

/-- The range that a text is. -/
def ofPart (kind : String) (part : Octets) : Except Octets (Nat × Option Nat) := do
  let low := part.takeWhile Char.isDigit
  let invalid : Except Octets (Nat × Option Nat) :=
    .error ("invalid ".toList ++ kind.toList ++ " value ".toList ++ quoted part)
  let fromOne (n : Nat) : Except Octets Unit :=
    if n = 0 then
      .error (if kind = "field" then "fields are numbered from 1".toList
        else "byte/character positions are numbered from 1".toList)
    else .ok ()
  match part.drop low.length with
  | [] =>
    if low.isEmpty then invalid
    else
      fromOne (Octets.natOf 10 low)
      return (Octets.natOf 10 low, some (Octets.natOf 10 low))
  | '-' :: high =>
    if !high.all Char.isDigit || (low.isEmpty && high.isEmpty) then invalid
    else
      let a := if low.isEmpty then 1 else Octets.natOf 10 low
      fromOne a
      if high.isEmpty then return (a, none)
      else if Octets.natOf 10 high < a then throw "invalid decreasing range".toList
      else return (a, some (Octets.natOf 10 high))
  | _ => invalid

def ofOctets (kind : String) (t : Octets) : Except Octets Ranges :=
  (Text.splitOn ',' (t.map fun c => if c == ' ' || c == '\t' then ',' else c)).mapM (ofPart kind)

end Ranges

def cutOptions : OptionTable := .ofString "b:c:d:f:nszCO:"
  [("bytes", 'b'), ("characters", 'c'), ("delimiter", 'd'), ("fields", 'f'), ("only-delimited", 's'),
    ("complement", 'C'), ("output-delimiter", 'O'), ("zero-terminated", 'z')] true

/-- Whether a number counts, and whether one begins a range of its own. -/
structure Choice where
  ranges : Ranges
  inverted : Bool

namespace Choice

def holds (c : Choice) (n : Nat) : Bool := c.ranges.holds n != c.inverted

/-- The chosen ones of some things, with their numbers. -/
def filter {α : Type} (c : Choice) (as : List α) : List (α × Nat) :=
  (as.zipIdx.map fun (a, i) => (a, i + 1)).filter fun x => c.holds x.2

/-- A range begins at a number. -/
def begins (c : Choice) (n : Nat) : Bool :=
  if c.inverted then c.ranges.any (·.2 = some (n - 1)) else c.ranges.any (·.1 = n)

end Choice

def cutFields (c : Choice) (delimiter : Char) (separator : Octets) (onlyDelimited : Bool) (line : Octets) :
    Option Octets :=
  if !line.contains delimiter then (if onlyDelimited then none else some line)
  else some (Text.join separator ((c.filter (Text.splitOn delimiter line)).map Prod.fst))

def cutCharacters (c : Choice) (separator : Octets) (line : Octets) : Octets :=
  (c.filter line).zipIdx.flatMap fun ((d, n), i) =>
    (if i > 0 && c.begins n then separator else []) ++ [d]

def cut : Program := fun _ => withOptions "cut" 1 cutOptions fun o operands => do
  let lists := o.given.filter fun g => g.1 == 'b' || g.1 == 'c' || g.1 == 'f'
  let refuse (message : String) : Act Nat := misuse "cut" 1 message.toList
  match lists with
  | [] => refuse "you must specify a list of bytes, characters, or fields"
  | _ :: _ :: _ => refuse "only one list may be specified"
  | [(letter, list)] =>
    let inFields := letter = 'f'
    let delimiter := o.value? 'd'
    if !inFields && delimiter.isSome then
      refuse "an input delimiter may be specified only when operating on fields"
    else if !inFields && o.has 's' then
      refuse "suppressing non-delimited lines makes sense\n\tonly when operating on fields"
    else if delimiter.any (·.length > 1) then refuse "the delimiter must be a single character"
    else match Ranges.ofOctets (if inFields then "field" else "byte/character") list with
      | .error message => misuse "cut" 1 message
      | .ok ranges =>
        let choice : Choice := ⟨ranges, o.has 'C'⟩
        let d := ((delimiter.getD ['\t']).head?).getD (Char.ofNat 0)
        let separator := (o.value? 'O').getD (if inFields then [d] else [])
        eachInput "cut" 1 operands fun _ text =>
          (Octets.lines text).forM fun line =>
            if inFields then
              match cutFields choice d separator (o.has 's') line with
              | some l => writeLine l
              | none => return
            else writeLine (cutCharacters choice separator line)

/-! ### Pasting -/

def pasteOptions : OptionTable := .ofString "d:sz" [("delimiters", 'd'), ("serial", 's'), ("zero-terminated", 'z')] true

/-- The delimiters that a text lists; one may be empty. -/
def delimiterList : Octets → List Octets
  | [] => []
  | '\\' :: 'n' :: t => ['\n'] :: delimiterList t
  | '\\' :: 't' :: t => ['\t'] :: delimiterList t
  | '\\' :: '\\' :: t => ['\\'] :: delimiterList t
  | '\\' :: '0' :: t => [] :: delimiterList t
  | c :: t => [c] :: delimiterList t

/-- Texts joined by delimiters in turn. -/
def joinedInTurn (delimiters : List Octets) (parts : List Octets) : Octets :=
  parts.zipIdx.flatMap fun (p, i) =>
    (if i = 0 || delimiters.isEmpty then [] else delimiters[(i - 1) % delimiters.length]?.getD []) ++ p

/-- The lines of several inputs side by side, for which the bound lasts.  Inputs of one name share its lines. -/
def pasteRows (delimiters : List Octets) : Nat → List (Octets × List Octets) → List Octets
  | 0, _ => []
  | n + 1, columns =>
    let step := columns.foldl (fun (row, taken, found) (name, lines) =>
        let used := (taken.filter (· == name)).length
        let mine := if name = ['-'] then lines.drop used else lines
        (row ++ [(mine.head?).getD []], name :: taken, found || !mine.isEmpty))
      (([], [], false) : List Octets × List Octets × Bool)
    if !step.2.2 then []
    else
      let dashes := (columns.filter fun c => c.1 = ['-']).length
      joinedInTurn delimiters step.1 ::
        pasteRows delimiters n (columns.map fun (name, lines) => (name, lines.drop (if name = ['-'] then dashes else 1)))

def paste : Program := fun _ => withOptions "paste" 1 pasteOptions fun o operands => do
  let delimiters := delimiterList ((o.value? 'd').getD ['\t'])
  let names := if operands.isEmpty then [['-']] else operands
  let mut columns : List (Octets × List Octets) := []
  let mut standard : Option (List Octets) := none
  for name in names do
    if name = ['-'] && standard.isSome then columns := columns ++ [(name, standard.getD [])]
    else match ← input name with
      | .ok text =>
        if name = ['-'] then standard := some (Octets.lines text)
        columns := columns ++ [(name, Octets.lines text)]
      | .error e =>
        complainOf "paste" name e
        return 1
  if o.has 's' then
    for (_, lines) in columns do writeLine (joinedInTurn delimiters lines)
  else
    let rows := (columns.map fun c => c.2.length).foldl max 0
    for row in pasteRows delimiters (rows + 1) columns do writeLine row
  return 0

/-! ### Single characters -/

def trOptions : OptionTable := .ofString "cCdst"
  [("complement", 'c'), ("delete", 'd'), ("squeeze-repeats", 's'), ("truncate-set1", 't')] false

/-- A character as it is written in a set, and what follows it. -/
def setCharacter : Octets → Option (Char × Octets)
  | [] => none
  | '\\' :: c :: t =>
    if '0' ≤ c && c ≤ '7' then
      let digits := ((c :: t).take 3).takeWhile fun d => '0' ≤ d && d ≤ '7'
      some (Char.ofNat (Octets.natOf 8 digits % 256), (c :: t).drop digits.length)
    else match c with
      | 'n' => some ('\n', t)
      | 't' => some ('\t', t)
      | 'r' => some ('\r', t)
      | 'a' => some ('\x07', t)
      | 'b' => some ('\x08', t)
      | 'f' => some ('\x0c', t)
      | 'v' => some ('\x0b', t)
      | c => some (c, t)
  | c :: t => some (c, t)

/-- All bytes. -/
def allBytes : Octets := (List.range 256).map Char.ofNat

/-- The characters of a class. -/
def classCharacters? (name : Octets) : Option Octets :=
  (Wildcard.classRanges? name).map fun ranges => allBytes.filter fun c => ranges.any fun (a, b) => a ≤ c && c ≤ b

/-- A part of a set: some characters, or one that is repeated to fill the set up. -/
inductive SetPart where
  | characters (o : Octets)
  | fill (c : Char)

/-- The parts of a set, for which the bound lasts. -/
def setParts : Nat → Octets → Except Octets (List SetPart)
  | 0, _ => .ok []
  | _ + 1, [] => .ok []
  | n + 1, t =>
    let literal : Except Octets (List SetPart) :=
      match setCharacter t with
      | none => .ok []
      | some (c, rest) =>
        match rest with
        | '-' :: u =>
          match setCharacter u with
          | some (d, rest) =>
            if d < c then
              .error ("range-endpoints of '".toList ++ [c, '-', d] ++ "' are in reverse collating sequence order".toList)
            else (setParts n rest).map fun ps => .characters (allBytes.filter fun x => c ≤ x && x ≤ d) :: ps
          | none => (setParts n rest).map fun ps => .characters [c] :: ps
        | _ => (setParts n rest).map fun ps => .characters [c] :: ps
    match t with
    | '[' :: ':' :: u =>
      let name := u.takeWhile Char.isAlpha
      match u.drop name.length with
      | ':' :: ']' :: rest =>
        match classCharacters? name with
        | some o => (setParts n rest).map fun ps => .characters o :: ps
        | none => .error ("invalid character class ".toList ++ quoted name)
      | _ => literal
    | '[' :: '=' :: c :: '=' :: ']' :: rest => (setParts n rest).map fun ps => .characters [c] :: ps
    | '[' :: c :: '*' :: u =>
      let digits := u.takeWhile Char.isDigit
      match u.drop digits.length with
      | ']' :: rest =>
        let count := if digits.head? = some '0' then Octets.natOf 8 digits else Octets.natOf 10 digits
        (setParts n rest).map fun ps =>
          (if count = 0 then .fill c else .characters (List.replicate count c)) :: ps
      | _ => literal
    | _ => literal

/-- The characters of a set that should have at least some length. -/
def setOf (t : Octets) (length : Nat) : Except Octets Octets := do
  let parts ← setParts (t.length + 1) t
  let known := (parts.map fun
    | .characters o => o.length
    | .fill _ => 0).foldl (· + ·) 0
  return parts.flatMap fun
    | .characters o => o
    | .fill c => List.replicate (length - known) c

/-- A text in which runs of one character of a set are a single one. -/
def squeezed (inSet : Char → Bool) : Octets → Octets
  | [] => []
  | c :: t =>
    match squeezed inSet t with
    | d :: rest => if c = d && inSet c then d :: rest else c :: d :: rest
    | [] => [c]

/-- What a character of the first set becomes. -/
def translated (from_ to_ : Octets) (c : Char) : Char :=
  match (from_.zipIdx.filter fun x => x.1 == c).getLast? with
  | some (_, i) => (to_[i]?.or to_.getLast?).getD c
  | none => c

def tr : Program := fun _ => withOptions "tr" 1 trOptions fun o operands => do
  let complement := o.has 'c' || o.has 'C'
  let delete := o.has 'd'
  let squeeze := o.has 's'
  let least := if delete != squeeze then 1 else 2
  let refuse (message : Octets) (further : String) : Act Nat := do
    complain "tr" message
    if !further.isEmpty then Act.write 2 (further.toList ++ ['\n'])
    Act.write 2 "Try 'tr --help' for more information.\n".toList
    return 1
  match operands with
  | [] => refuse "missing operand".toList ""
  | first :: others =>
    if others.isEmpty && least = 2 then
      refuse ("missing operand after ".toList ++ quoted first)
        (if delete then "Two strings must be given when both deleting and squeezing repeats."
        else "Two strings must be given when translating.")
    else if delete && !squeeze && !others.isEmpty then
      refuse ("extra operand ".toList ++ quoted (others.headD []))
        "Only one string may be given when deleting without squeezing repeats."
    else if others.length > 1 then refuse ("extra operand ".toList ++ quoted (others.getD 1 [])) ""
    else
      let sets : Except Octets (Octets × Option Octets) := do
        let a ← setOf first 0
        let a := if complement then allBytes.filter fun c => !a.contains c else a
        let b ← others.head?.mapM fun t => setOf t a.length
        return (a, b)
      match sets with
      | .error message =>
        complain "tr" message
        return 1
      | .ok (a, b) =>
        let text := (← Act.readAll? 0).getD []
        let text := if delete then text.filter fun c => !a.contains c else text
        let text := match delete, b with
          | false, some b =>
            if b.isEmpty then text
            else
              let from_ := if o.has 't' then a.take b.length else a
              text.map (translated from_ b)
          | _, _ => text
        let last := (if squeeze then some (b.getD a) else none)
        Act.write 1 (match last with
          | some set => squeezed set.contains text
          | none => text)
        return 0

end Graft.Shell.Tool
