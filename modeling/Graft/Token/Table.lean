/-
The patterns of the tokens of code.

`rules` pairs each kind with a pattern; code is read by the longest match over all of them.  The comment and heredoc
openers stand in the table with their fixed opening text, which the lexer then extends.
-/
import Graft.Token
import Graft.Token.Pattern

/-! ### Character classes -/

namespace Graft.TokenTable

open Pattern

def isDigit (c : Char) : Bool := c.isDigit

/-- A decimal digit or a separating underscore. -/
def isDigitPart (c : Char) : Bool := c.isDigit || c == '_'

def isHexPart (c : Char) : Bool :=
  c.isDigit || ('a' ≤ c && c ≤ 'f') || ('A' ≤ c && c ≤ 'F') || c == '_'

def isBinaryPart (c : Char) : Bool := c == '0' || c == '1' || c == '_'

def isOctalPart (c : Char) : Bool := ('0' ≤ c && c ≤ '7') || c == '_'

/-- A character that a name may begin with: an ASCII letter, an underscore or any character beyond ASCII. -/
def isLabelStart (c : Char) : Bool := c.isAlpha || c == '_' || 0x80 ≤ c.toNat

/-- A character that a name may go on with. -/
def isLabelPart (c : Char) : Bool := isLabelStart c || c.isDigit

def isSpace (c : Char) : Bool := c == ' ' || c == '\t' || c == '\r' || c == '\n' || c == '\x0c'

/-! ### Patterns -/

/-- Any one of the given characters. -/
def oneOf (cs : Text) : Pattern := .one fun c => cs.contains c

/-- A name. -/
def label : Pattern := .seq (.one isLabelStart) (.star (.one isLabelPart))

/-- What may follow the opening quote `q` up to, not including, the closing one: a backslash takes the next
character with it. -/
def quotedBody (q : Char) : Pattern :=
  .star (.alt (.one fun c => c != q && c != '\\') (.seq (.one (· == '\\')) (.one fun _ => true)))

/-- Text in quotes `q`. -/
def quoted (q : Char) : Pattern := all [lit [q], quotedBody q, lit [q]]

/-- A quote `q` with what follows it as far as a closing quote could still come. -/
def unclosed (q : Char) : Pattern := .seq (lit [q]) (quotedBody q)

def decimalDigits : Pattern := .seq (.one isDigit) (.star (.one isDigitPart))

/-- A decimal exponent. -/
def exponent : Pattern := all [oneOf "eE".toList, opt (oneOf "+-".toList), plus (.one isDigit)]

def lineComment : Pattern :=
  any [
    .seq (lit "//".toList) (.star (.one (· != '\n'))),
    .seq (lit "#".toList) (opt (.seq (.one fun c => c != '[' && c != '\n') (.star (.one (· != '\n')))))]

def intLiteral : Pattern :=
  any [
    decimalDigits,
    all [lit "0".toList, oneOf "xX".toList, plus (.one isHexPart)],
    all [lit "0".toList, oneOf "bB".toList, plus (.one isBinaryPart)],
    all [lit "0".toList, oneOf "oO".toList, plus (.one isOctalPart)]]

def floatLiteral : Pattern :=
  any [
    all [decimalDigits, lit ".".toList, .star (.one isDigitPart), opt exponent],
    all [lit ".".toList, decimalDigits, opt exponent],
    .seq decimalDigits exponent]

/-- Operators that have no kind of their own. -/
def operators : List String :=
  ["==", "===", "!=", "!==", "<>", "<", ">", "<=", ">=", "<=>", "+", "-", "*", "/", "%", "**", ".", "++", "--",
    "+=", "-=", "*=", "/=", ".=", "%=", "**=", "??", "??=", "?->", "->", "!", "&&", "||", "|", "^", "~", "<<",
    ">>", "<<=", ">>=", "&=", "|=", "^=", "@"]

/-! ### The table -/

/-- The kinds of tokens with their patterns. -/
def rules : List (TokenKind × Pattern) :=
  [
    (.whitespace, plus (.one isSpace)),
    (.lineComment, lineComment),
    (.blockComment, lit "/*".toList),
    (.closeTag, lit "?>".toList),
    (.varName, .seq (lit "$".toList) label),
    (.ident, label),
    (.int, intLiteral),
    (.float, floatLiteral),
    (.string, .alt (quoted '\'') (quoted '"')),
    (.shellExec, quoted '`'),
    (.heredoc, lit "<<<".toList),
    (.attrOpen, lit "#[".toList),
    (.lParen, lit "(".toList),
    (.rParen, lit ")".toList),
    (.lBracket, lit "[".toList),
    (.rBracket, lit "]".toList),
    (.lBrace, lit "\x7b".toList),
    (.rBrace, lit "\x7d".toList),
    (.semi, lit ";".toList),
    (.comma, lit ",".toList),
    (.backslash, lit "\\".toList),
    (.fatArrow, lit "=>".toList),
    (.eq, lit "=".toList),
    (.doubleColon, lit "::".toList),
    (.colon, lit ":".toList),
    (.amp, lit "&".toList),
    (.ellipsis, lit "...".toList),
    (.question, lit "?".toList),
    (.dollar, lit "$".toList),
    (.op, any (operators.map fun s => lit s.toList))]

/-- The quotes that text may stand in. -/
def quotes : Text := ['\'', '"', '`']

end Graft.TokenTable
