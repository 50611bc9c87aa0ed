/-
The parts of the grammar that only find where a construct ends: names, attributes, terminators and statements that
are kept verbatim.

Main statements: `Parser.name`, `Parser.verbatim`.
-/
import Graft.Parse.Parser

namespace Graft.Parser

/-! ### Names -/

/-- The further segments of a name, each with its separator. -/
def segments : Parser Text :=
  loop (fun text => do
    if (← check .backslash) && (← peek? 1) == some .ident then
      advance
      let segment := (← cursor).text
      advance
      return .again (text ++ '\\' :: segment)
    return .done text) []

/-- A name, qualified or not. -/
def name : Parser Name := do
  let origin ← fresh
  let start ← here
  let rooted ← eat .backslash
  let first ← expect .ident "name"
  let more ← segments
  return ⟨some origin, ← spanFrom start, (if rooted then ['\\'] else []) ++ first.text ++ more⟩

/-- The identifier that the current token is. -/
def ident (expected : String) : Parser Ident := do
  let t ← expect .ident expected
  return ⟨t.span, t.text⟩

def nameList : Parser (List Name) := sepByComma name

/-! ### Terminators and attributes -/

/-- Consumes the end of a statement: a semicolon or a closing tag. -/
def terminator : Parser Unit := do
  if ← eat .semi then return
  if ← eat .closeTag then return
  unexpected "`;`"

def skipAttributes : Parser Unit := skipUntil (return !(← check .attrOpen)) (discard skipGroup)

/-- Consumes a bracketed group or a single token. -/
def skipOne : Parser Unit := do
  if (← kind?).any Cursor.isOpener then discard skipGroup else advance

/-! ### Verbatim statements -/

/-- The words that continue a statement after a block. -/
def continuations : List String := ["else", "elseif", "catch", "finally", "while"]

/-- Consumes one piece of a statement; the argument tells whether it has begun. -/
def verbatimRound (begun : Bool) : Parser (Round Bool Unit) := do
  match ← kind? with
  | none => return .done ()
  | some .semi | some .closeTag =>
    advance
    return .done ()
  | some .lBrace =>
    discard skipGroup
    let c ← cursor
    if continuations.any c.checkWord then return .again true
    -- A block ends the statement, with the semicolon of a closure or a match behind it.
    discard (eat .semi)
    return .done ()
  | some k =>
    if Cursor.isOpener k then
      discard skipGroup
      return .again true
    if Cursor.isCloser k then
      -- The bracket closes what is around the statement.
      if begun then return .done ()
      unexpected "statement"
    advance
    return .again true

/-- A statement of which only the extent is known.  It ends at a semicolon or a closing tag outside of brackets, or
after a block that no word continues. -/
def verbatim : Parser Verbatim := do
  let origin ← fresh
  let start ← leadStart
  loop verbatimRound false
  return ⟨some origin, ← spanFrom start⟩

end Graft.Parser
