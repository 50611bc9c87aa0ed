/-
Quoted string literals and the values they stand for.

Single quotes know two escapes, double quotes many, and a double-quoted literal that interpolates a variable has no
value that can be read from its text.  `quote` writes a value in single quotes.

Main statements: `decodeSingle_escapeSingle` and `decode?_quote` (a quoted value reads back as itself).
-/
import Graft.Text.Alphabetic

/-! ### Single quotes -/

namespace Graft.Literal

/-- The value between single quotes: a backslash escapes itself and the quote, and stands for itself elsewhere. -/
def decodeSingle : Text → Text
  | [] => []
  | '\\' :: '\\' :: t => '\\' :: decodeSingle t
  | '\\' :: '\'' :: t => '\'' :: decodeSingle t
  | c :: t => c :: decodeSingle t

/-- The form of a value between single quotes. -/
def escapeSingle (t : Text) : Text :=
  t.flatMap fun c => if c = '\\' ∨ c = '\'' then ['\\', c] else [c]

/-- A value as a literal in single quotes. -/
def quote (t : Text) : Text := '\'' :: (escapeSingle t ++ ['\''])

theorem decodeSingle_escapeSingle (t : Text) : decodeSingle (escapeSingle t) = t := by
  induction t with
  | nil => rfl
  | cons c t ih =>
    simp only [escapeSingle, List.flatMap_cons] at ih ⊢
    split
    · rename_i h
      rcases h with rfl | rfl <;> simp [decodeSingle, ih]
    · rename_i h
      simp only [not_or] at h
      simp only [List.cons_append, List.nil_append]
      rw [decodeSingle, ih]
      · intro _ e _; exact h.1 e
      · intro _ e _; exact h.1 e

/-! ### Double quotes -/

/-- Stands for a code point that is no character. -/
def replacement : Char := '\uFFFD'

/-- The value of a hexadecimal digit. -/
def hexDigit? (c : Char) : Option Nat :=
  if c.isDigit then some (c.toNat - '0'.toNat)
  else if 'a' ≤ c ∧ c ≤ 'f' then some (c.toNat - 'a'.toNat + 10)
  else if 'A' ≤ c ∧ c ≤ 'F' then some (c.toNat - 'A'.toNat + 10)
  else none

def isHexDigit (c : Char) : Bool := (hexDigit? c).isSome

def isOctalDigit (c : Char) : Bool := '0' ≤ c && c ≤ '7'

/-- The number that digits of a base write, the first digit the most significant. -/
def ofDigits (base : Nat) (digits : Text) : Nat :=
  digits.foldl (fun n c => n * base + (hexDigit? c).getD 0) 0

/-- The character with the code point, or the replacement where there is none. -/
def charOf (n : Nat) : Char := if n.isValidChar then Char.ofNat n else replacement

/-- The character that a code point in braces names: hexadecimal digits, perhaps after a plus sign. -/
def charOfHex (digits : Text) : Char :=
  let digits := (Text.strip? ['+'] digits).getD digits
  if digits.isEmpty || !digits.all isHexDigit then replacement else charOf (ofDigits 16 digits)

/-- The text that stands for what follows a backslash, and the number of characters it takes from there. -/
def escape : Text → Text × Nat
  | [] => (['\\'], 0)
  | 'n' :: _ => (['\n'], 1)
  | 't' :: _ => (['\t'], 1)
  | 'r' :: _ => (['\r'], 1)
  | 'v' :: _ => (['\x0b'], 1)
  | 'e' :: _ => (['\x1b'], 1)
  | 'f' :: _ => (['\x0c'], 1)
  | '\\' :: _ => (['\\'], 1)
  | '$' :: _ => (['$'], 1)
  | '"' :: _ => (['"'], 1)
  | 'u' :: '{' :: t =>
    let digits := t.takeWhile (· ≠ '}')
    ([charOfHex digits], 2 + digits.length + 1)
  | c :: t =>
    if isOctalDigit c then
      let digits := c :: (t.take 2).takeWhile isOctalDigit
      ([charOf (ofDigits 8 digits % 256)], digits.length)
    else if c = 'x' ∧ t.head?.any isHexDigit then
      let digits := (t.take 2).takeWhile isHexDigit
      ([charOf (ofDigits 16 digits)], 1 + digits.length)
    else (['\\', c], 1)

/-- A character that after a dollar sign begins an interpolation. -/
def startsInterpolation (c : Char) : Bool := c == '{' || c == '_' || Text.isAlphabetic c

/-- The value between double quotes, or nothing when it interpolates.  The count tells how many characters belong to
an escape that has been read. -/
def decodeDouble? : Nat → Text → Option Text
  | _, [] => some []
  | k + 1, _ :: t => decodeDouble? k t
  | 0, c :: t =>
    if c = '\\' then (decodeDouble? (escape t).2 t).map ((escape t).1 ++ ·)
    else if c = '$' ∧ t.head?.any startsInterpolation then none
    else if c = '{' ∧ t.head? = some '$' then none
    else (decodeDouble? 0 t).map (c :: ·)

/-! ### Literals -/

/-- The text between the quotes `q`. -/
def unquote? (q : Char) : Text → Option Text
  | c :: d :: t => if c = q ∧ (d :: t).getLast? = some q then some (d :: t).dropLast else none
  | _ => none

/-- The value of a quoted literal, or nothing when it is not a literal or its value is not fixed by its text. -/
def decode? (t : Text) : Option Text :=
  match unquote? '\'' t with
  | some inner => some (decodeSingle inner)
  | none => (unquote? '"' t).bind (decodeDouble? 0)

theorem unquote?_append (q : Char) (t : Text) : unquote? q (q :: (t ++ [q])) = some t := by
  have : t ++ [q] ≠ [] := by simp
  obtain ⟨d, s, h⟩ := List.exists_cons_of_ne_nil this
  rw [h]
  simp only [unquote?]
  rw [← h]
  simp [List.getLast?_append]

/-- A quoted value reads back as itself. -/
theorem decode?_quote (t : Text) : decode? (quote t) = some t := by
  simp only [decode?, quote, unquote?_append, decodeSingle_escapeSingle]

end Graft.Literal
