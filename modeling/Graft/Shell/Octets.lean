/-
Texts of bytes.

A shell and its tools work on bytes.  A text of bytes has one character below 256 for every byte, so that the rules
for texts serve for bytes as well.

Main statements: `Octets.toBytes_ofBytes`, `Octets.numberAt?`, `Octets.flatten_closedLines`.
-/
import Graft.Text

namespace Graft.Shell

/-- A text with a character below 256 for every byte. -/
abbrev Octets := Text

namespace Octets

/-! ### Bytes and texts -/

def ofBytes (bytes : List UInt8) : Octets := bytes.map fun b => Char.ofNat b.toNat

def toBytes (o : Octets) : List UInt8 := o.map fun c => c.toNat.toUInt8

theorem toBytes_ofBytes (bytes : List UInt8) : toBytes (ofBytes bytes) = bytes := by
  induction bytes with
  | nil => rfl
  | cons b bs ih =>
    have hb : (Char.ofNat b.toNat).toNat = b.toNat := by
      have h := b.toNat_lt
      have hv : b.toNat.isValidChar := Or.inl (by omega)
      rw [Char.ofNat, dif_pos hv]
      rfl
    simp only [ofBytes, toBytes, List.map_cons, List.map_map] at ih ⊢
    rw [ih, hb]
    simp

/-- The bytes of the UTF-8 form of a text. -/
def ofText (t : Text) : Octets := ofBytes (String.ofList t).toUTF8.toList

/-- The text of which these are the bytes.  Bytes that are no UTF-8 stand for themselves. -/
def toText (o : Octets) : Text :=
  match String.fromUTF8? ⟨(toBytes o).toArray⟩ with
  | some s => s.toList
  | none => o

def ofString (s : String) : Octets := s.toList

/-! ### Numbers -/

/-- A blank by the rules of numbers: a space, or one of the five characters from the tab on. -/
def isSpace (c : Char) : Bool := c == ' ' || ('\t' ≤ c && c ≤ '\r')

def trimSpace (o : Octets) : Octets := ((o.dropWhile isSpace).reverse.dropWhile isSpace).reverse

def digitValue (c : Char) : Nat :=
  if c.isDigit then c.toNat - '0'.toNat
  else if 'a' ≤ c && c ≤ 'z' then c.toNat - 'a'.toNat + 10
  else if 'A' ≤ c && c ≤ 'Z' then c.toNat - 'A'.toNat + 10
  else 36

/-- The number that digits of a base write. -/
def natOf (base : Nat) (digits : Octets) : Nat := digits.foldl (fun v c => v * base + digitValue c) 0

/-- The number of a text that has nothing but digits, at least one. -/
def nat? (o : Octets) : Option Nat := if o.isEmpty || !o.all Char.isDigit then none else some (natOf 10 o)

/-- A sign and what follows it. -/
def signed : Octets → Bool × Octets
  | '-' :: t => (true, t)
  | '+' :: t => (false, t)
  | t => (false, t)

def negateIf (b : Bool) (n : Nat) : Int := if b then -(n : Int) else n

/-- A whole number in decimal, with a sign and with blanks around it. -/
def int? (o : Octets) : Option Int :=
  let (negative, digits) := signed (trimSpace o)
  (nat? digits).map (negateIf negative)

/-- The numbers of 64 bits with a sign. -/
def clamp64 (i : Int) : Int := max (-9223372036854775808) (min 9223372036854775807 i)

def wrap64 (i : Int) : Int := Int.bmod i 18446744073709551616

/-- The number at the front of a text, as it is written in programs: with a sign, in base eight after a zero and in
base sixteen after `0x`.  With it comes what follows; nothing when no digit is there. -/
def numberAt? (o : Octets) : Option (Int × Octets) :=
  let (negative, t) := signed (o.dropWhile isSpace)
  let (base, digits) : Nat × Octets := match t with
    | '0' :: x :: d :: u => if (x == 'x' || x == 'X') && digitValue d < 16 then (16, d :: u) else (8, t)
    | '0' :: _ => (8, t)
    | _ => (10, t)
  let taken := digits.takeWhile fun c => digitValue c < base
  if taken.isEmpty then none else some (negateIf negative (natOf base taken), digits.drop taken.length)

/-- The digits of a number in a base up to sixteen. -/
def inBase (base n : Nat) : Octets := Nat.toDigits base n

/-! ### Lines -/

/-- The lines of a text.  A line feed at the end closes the last line. -/
def lines (o : Octets) : List Octets :=
  let parts := Text.splitOn '\n' o
  if parts.getLast? == some [] then parts.dropLast else parts

/-- Lines with a line feed behind each. -/
def unlines (ls : List Octets) : Octets := ls.flatMap (· ++ ['\n'])

/-- The lines of a text, each with its line feed; the last may have none. -/
def closedLines : Octets → List Octets
  | [] => []
  | c :: t =>
    if c = '\n' then ['\n'] :: closedLines t
    else match closedLines t with
      | [] => [[c]]
      | l :: ls => (c :: l) :: ls

theorem flatten_closedLines (o : Octets) : (closedLines o).flatten = o := by
  induction o with
  | nil => rfl
  | cons c t ih =>
    simp only [closedLines]
    split
    · rename_i h
      simp [ih, h]
    · split
      · rename_i h
        rw [h] at ih
        simp [← ih]
      · rename_i l ls h
        rw [h] at ih
        simp [← ih]

/-- The line without its line feed. -/
def chomp (o : Octets) : Octets := if o.getLast? = some '\n' then o.dropLast else o

/-- The text without any line feeds at its end. -/
def chompAll (o : Octets) : Octets := (o.reverse.dropWhile (· == '\n')).reverse

/-! ### Words -/

/-- The runs of characters between blanks. -/
def fields (isBlank : Char → Bool) (o : Octets) : List Octets :=
  let (current, done) := o.foldr (fun c (current, done) =>
    if isBlank c then ([], if current.isEmpty then done else current :: done) else (c :: current, done))
    (([], []) : Octets × List Octets)
  if current.isEmpty then done else current :: done

/-- Blanks in front of a text up to a width. -/
def padLeft (width : Nat) (o : Octets) : Octets := List.replicate (width - o.length) ' ' ++ o

def padRight (width : Nat) (o : Octets) : Octets := o ++ List.replicate (width - o.length) ' '

def isNameStart (c : Char) : Bool := c.isAlpha || c == '_'

def isNameChar (c : Char) : Bool := c.isAlphanum || c == '_'

/-- A name of a variable: letters, digits and underscores, no digit first. -/
def isName : Octets → Bool
  | [] => false
  | c :: t => isNameStart c && t.all isNameChar

end Octets

end Graft.Shell
