/-
Writing JSON without blanks.

Main statements: `Document.toText`, `Figure.toText`.
-/
import Graft.Document
import Graft.Number.Decimal

namespace Graft

/-! ### Numbers -/

/-- Floats in JSON: positional from `0.00001` up to sixteen digits, else with an exponent and its sign; always with a
point or an exponent. -/
def jsonFloats : FloatStyle :=
  { positional := fun e => -5 ≤ e && e ≤ 15
    keepsPoint := true
    plus := true
    tie := .toEven
    nan := "null".toList
    infinity := "null".toList }

def Figure.toText : Figure → Text
  | .natural n => Text.ofNat n
  | .negative n => '-' :: Text.ofNat (n + 1)
  | .float x => jsonFloats.write x

namespace Document

/-! ### Strings -/

/-- The escape of a control character by its number. -/
def controlEscape (c : Char) : Text :=
  let digits := Nat.toDigits 16 c.toNat
  '\\' :: 'u' :: (List.replicate (4 - digits.length) '0' ++ digits)

def escapeChar (c : Char) : Text :=
  if c == '"' then ['\\', '"']
  else if c == '\\' then ['\\', '\\']
  else if c == '\x08' then ['\\', 'b']
  else if c == '\x0c' then ['\\', 'f']
  else if c == '\n' then ['\\', 'n']
  else if c == '\r' then ['\\', 'r']
  else if c == '\t' then ['\\', 't']
  else if c.toNat < 0x20 then controlEscape c
  else [c]

def quote (t : Text) : Text := '"' :: (t.flatMap escapeChar ++ ['"'])

/-! ### Documents -/

mutual

/-- A document on one line. -/
def toText : Document → Text
  | .null => "null".toList
  | .bool b => if b then "true".toList else "false".toList
  | .number n => n.toText
  | .string t => quote t
  | .array ds => ['['] ++ Text.join [','] (itemTexts ds) ++ [']']
  | .object ms => '{' :: (Text.join [','] (memberTexts ms) ++ ['}'])
termination_by structural d => d

/-- The texts of items. -/
def itemTexts : List Document → List Text
  | [] => []
  | d :: ds => toText d :: itemTexts ds
termination_by structural d => d

/-- The texts of members. -/
def memberTexts : List (Text × Document) → List Text
  | [] => []
  | m :: ms => memberText m :: memberTexts ms
termination_by structural d => d

/-- The text of one member. -/
def memberText : Text × Document → Text
  | (name, d) => quote name ++ ':' :: toText d
termination_by structural d => d

end

end Document

end Graft
