/-
Why a text is not parsed.

Main statements: `ParseErrorKind.message`, `ParseError.describe`.
-/
import Graft.Arena

/-! ### Causes -/

namespace Graft

inductive ParseErrorKind where
  | unexpectedToken (expected : String) (found : TokenKind)
  | unexpectedEnd (expected : String)
  /-- An opening bracket that nothing closes. -/
  | unclosed (opener : TokenKind)
  /-- A closing bracket that does not match the innermost open one. -/
  | mismatched (closer : TokenKind)
  | invalidToken
deriving DecidableEq, Repr

namespace ParseErrorKind

/-- The name of a cause in reports for programs. -/
def name : ParseErrorKind → String
  | unexpectedToken .. => "UnexpectedToken"
  | unexpectedEnd _ => "UnexpectedEof"
  | unclosed _ => "Unclosed"
  | mismatched _ => "Mismatched"
  | invalidToken => "InvalidToken"

def message : ParseErrorKind → String
  | unexpectedToken expected found => "expected " ++ expected ++ ", found " ++ found.displayName
  | unexpectedEnd expected => "expected " ++ expected ++ ", found end of input"
  | unclosed opener => "unclosed delimiter " ++ opener.displayName
  | mismatched closer => "mismatched closing delimiter " ++ closer.displayName
  | invalidToken => "invalid input"

end ParseErrorKind

/-- A cause with the place in the arena that it points at. -/
structure ParseError where
  kind : ParseErrorKind
  span : Span
deriving DecidableEq, Repr

namespace ParseError

def message (e : ParseError) : String := e.kind.message ++ " at " ++ e.span.toText

/-- The report for a command line: `line:column: message`. -/
def describe (e : ParseError) (a : Arena) : String :=
  let (line, column) := a.lineColumn e.span.start
  Nat.repr line ++ ":" ++ Nat.repr column ++ ": " ++ e.kind.message

end ParseError

end Graft
