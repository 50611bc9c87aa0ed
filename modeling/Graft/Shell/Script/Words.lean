/-
Reading the words of a script.

What a character means depends on where it stands: in a plain word, between quotes, in the braces of a parameter, in
the body of a here document or in an expression.  A script in a word is read by the reader of scripts, which is an
argument here.

Main statements: `Reader.pieces` (the pieces up to the end of a surrounding), `Reader.word`.
-/
import Graft.Shell.Script.Source

namespace Graft.Shell

/-- Where the characters of a word stand. -/
inductive Surrounding where
  | plain
  /-- The word that names the end of a here document. -/
  | mark
  /-- In braces without quotes. -/
  | braces
  /-- In braces that are in quotes. -/
  | quotedBraces
  | quotes
  | document
  | expression
deriving DecidableEq, Repr

namespace Surrounding

/-- Characters count as quoted. -/
def isQuoted : Surrounding → Bool
  | plain | mark | braces => false
  | quotedBraces | quotes | document | expression => true

/-- What is wrong with a text that ends here. -/
def unclosed? : Surrounding → Option String
  | plain | mark | document => none
  | braces => some "Missing '\x7d'"
  | quotedBraces | quotes => some "Unterminated quoted string"
  | expression => some "Missing '))'"

/-- A backslash takes the meaning of a character away. -/
def escapes (s : Surrounding) (c : Char) : Bool :=
  match s with
  | plain | mark | braces => true
  | quotes => c == '\\' || c == '`' || c == '$' || c == '"'
  | document => c == '\\' || c == '`' || c == '$'
  | quotedBraces => c == '\\' || c == '`' || c == '$' || c == '"' || c == '\x7d'
  | expression => c == '\\' || c == '`' || c == '$' || c == '"'

end Surrounding

/-- A character that ends a plain word. -/
def isMeta (c : Char) : Bool :=
  c == ' ' || c == '\t' || c == '\n' || c == ';' || c == '&' || c == '|' || c == '<' || c == '>' || c == '(' ||
    c == ')'

/-- A parameter whose name is no letter. -/
def isSpecial (c : Char) : Bool :=
  c == '@' || c == '*' || c == '#' || c == '?' || c == '-' || c == '$' || c == '!' || c.isDigit

namespace Reader

/-! ### Quotes -/

/-- The characters up to a single quote. -/
def singleQuoted : Nat → Reader Word
  | 0 => fail "Unterminated quoted string"
  | n + 1 => do
    match ← takeRaw with
    | none => fail "Unterminated quoted string"
    | some '\'' => return []
    | some c => return .char c true :: (← singleQuoted n)

/-- The text up to a backquote.  A backslash before some characters is left out. -/
def backquoted (inQuotes : Bool) : Nat → Reader Octets
  | 0 => fail "EOF in backquote substitution"
  | n + 1 => do
    match ← take with
    | none => fail "EOF in backquote substitution"
    | some '`' => return []
    | some '\\' =>
      match ← take with
      | none => fail "EOF in backquote substitution"
      | some c =>
        let rest ← backquoted inQuotes n
        return if c == '\\' || c == '`' || c == '$' || (inQuotes && c == '"') then c :: rest else '\\' :: c :: rest
    | some c => return c :: (← backquoted inQuotes n)

/-! ### Parameters -/

/-- The pieces up to the end of a surrounding. -/
abbrev PiecesReader := Surrounding → Reader Word

/-- The form of a parameter in braces, behind its name. -/
def form (pieces : PiecesReader) (inQuotes : Bool) : Reader Form := do
  let around : Surrounding := if inQuotes then .quotedBraces else .braces
  let fallback (orEmpty : Bool) (c : Option Char) : Reader Form := do
    match c with
    | some '-' => return .fallback .instead orEmpty (← pieces around)
    | some '+' => return .fallback .unless orEmpty (← pieces around)
    | some '=' => return .fallback .assigned orEmpty (← pieces around)
    | some '?' => return .fallback .complaint orEmpty (← pieces around)
    | some '\x7d' => return .wrong
    | _ =>
      let _ ← pieces around
      return .wrong
  match ← take with
  | some '\x7d' => return .plain
  | some ':' => fallback true (← take)
  | some '%' =>
    let longest ← accept '%'
    return .trimmed true longest (← pieces .braces)
  | some '#' =>
    let longest ← accept '#'
    return .trimmed false longest (← pieces .braces)
  | c => fallback false c

/-- The name of a parameter; `inBraces` it may have many digits. -/
def parameterName? (inBraces : Bool) : Reader (Option Octets) := do
  match ← peek with
  | some c =>
    if Octets.isNameStart c then return some (← takeWhile Octets.isNameChar (← size))
    else if c.isDigit && inBraces then return some (← takeWhile Char.isDigit (← size))
    else if isSpecial c then
      let _ ← take
      return some [c]
    else return none
  | none => return none

/-- A parameter in braces, behind the opening one. -/
def braced (pieces : PiecesReader) (inQuotes : Bool) : Reader Piece := do
  let finish (name : Octets) : Reader Piece := do return .parameter name (← form pieces inQuotes) inQuotes
  let refuse : Reader Piece := do
    if !(← accept '\x7d') then
      let _ ← pieces (if inQuotes then .quotedBraces else .braces)
    return .parameter [] .wrong inQuotes
  if ← accept '#' then
    -- The number of arguments, or the length of what follows.
    match ← peek with
    | some '\x7d' => finish ['#']
    | some c =>
      if isSpecial c && !c.isDigit then
        let s ← get
        let _ ← take
        if (← peek) = some '\x7d' then
          let _ ← take
          return .parameter [c] .length inQuotes
        else
          set s
          finish ['#']
      else match ← parameterName? true with
        | some name =>
          if ← accept '\x7d' then return .parameter name .length inQuotes else refuse
        | none => finish ['#']
    | none => finish ['#']
  else match ← parameterName? true with
    | some name => finish name
    | none => refuse

/-! ### Pieces -/

/-- What a dollar sign introduces. -/
def dollar (script : Reader Script) (pieces : PiecesReader) (inQuotes : Bool) : Reader Piece := do
  match ← peek with
  | some '(' =>
    let _ ← take
    if ← accept '(' then return .value (← pieces .expression) inQuotes
    else return .output (← script) inQuotes
  | some '\x7b' =>
    let _ ← take
    braced pieces inQuotes
  | _ =>
    match ← parameterName? false with
    | some name => return .parameter name .plain inQuotes
    | none => return .char '$' inQuotes

/-- The pieces up to the end of a surrounding, for which the bound lasts.  In an expression, `depth` brackets are
open. -/
def piecesFrom (script : Reader Script) (backquote : Octets → Reader Script) : Nat → Surrounding → Nat → Reader Word
  | 0, _, _ => fail "Unterminated quoted string"
  | n + 1, around, depth => do
    let inner : PiecesReader := fun around => piecesFrom script backquote n around 0
    let inQuotes := around.isQuoted
    let go (depth : Nat) (w : Word) : Reader Word := do return w ++ (← piecesFrom script backquote n around depth)
    match ← peek with
    | none =>
      match around.unclosed? with
      | some reason => fail reason
      | none => return []
    | some c =>
      if (around == .plain || around == .mark) && isMeta c then return []
      let _ ← take
      if c = '\\' then
        match ← takeRaw with
        | none => go depth [.char c true]
        | some d => go depth (if around.escapes d then [.char d true] else [.char c true, .char d true])
      else if c = '\'' && !inQuotes then go depth (.quotes :: (← singleQuoted n))
      else if c = '"' && !inQuotes then go depth (.quotes :: (← inner .quotes))
      else if c = '"' && around == .quotes then return []
      else if c = '"' && around == .quotedBraces then go depth (← inner .quotes)
      else if c = '\x7d' && (around == .braces || around == .quotedBraces) then return []
      else if c = '$' && around != .mark then go depth [← dollar script inner inQuotes]
      else if c = '`' && around != .mark then
        let text ← backquoted (around == .quotes || around == .quotedBraces) n
        go depth [.output (← within text (backquote text)) inQuotes]
      else if around == .expression && c = '(' then go (depth + 1) [.char c true]
      else if around == .expression && c = ')' then
        if depth > 0 then go (depth - 1) [.char c true]
        else if ← accept ')' then return []
        else go depth [.char c true]
      else go depth [.char c inQuotes]

/-- The pieces of a surrounding from the present place on. -/
def pieces (script : Reader Script) (backquote : Octets → Reader Script) (around : Surrounding) : Reader Word := do
  piecesFrom script backquote (← size) around 0

end Reader

end Graft.Shell
