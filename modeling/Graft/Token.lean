/-
Lossless tokens.

A token is a kind with the text it was read from and the offset where that text starts; whitespace, comments and
text outside of the code are tokens too, so that the texts of all tokens in order are the source.  Keywords are
identifiers here: they are matched by their text, since most of them may also name a member.

Main statements: `Token.stop_shift`, `TokenList.indexAt` and `TokenList.within` address a list of tokens by offsets, which
they look up by halving (`TokenList.partitionPoint`).
-/
import Graft.Text
import Graft.Span

/-! ### Kinds -/

namespace Graft

inductive TokenKind where
  /-- Text outside of the code. -/
  | inlineHtml
  | openTag
  | closeTag
  | whitespace
  | lineComment
  | blockComment
  /-- A variable, with its dollar sign. -/
  | varName
  /-- An identifier or a keyword. -/
  | ident
  | int
  | float
  /-- A quoted string, with its quotes. -/
  | string
  /-- A heredoc or nowdoc, through its closing label. -/
  | heredoc
  | shellExec
  /-- `#[`, which a square bracket closes. -/
  | attrOpen
  | lParen
  | rParen
  | lBracket
  | rBracket
  | lBrace
  | rBrace
  | semi
  | comma
  | backslash
  | fatArrow
  | eq
  | doubleColon
  | colon
  | amp
  | ellipsis
  | question
  | dollar
  /-- Any other operator. -/
  | op
  /-- Text that begins no token. -/
  | error
deriving DecidableEq, Repr, Inhabited

namespace TokenKind

/-- All kinds, in the order of their declaration. -/
def all : List TokenKind :=
  [.inlineHtml, .openTag, .closeTag, .whitespace, .lineComment, .blockComment, .varName, .ident, .int, .float,
    .string, .heredoc, .shellExec, .attrOpen, .lParen, .rParen, .lBracket, .rBracket, .lBrace, .rBrace, .semi,
    .comma, .backslash, .fatArrow, .eq, .doubleColon, .colon, .amp, .ellipsis, .question, .dollar, .op, .error]

theorem mem_all (k : TokenKind) : k ∈ all := by cases k <;> decide

/-- The name that token listings use. -/
def name : TokenKind → String
  | inlineHtml => "InlineHtml"
  | openTag => "OpenTag"
  | closeTag => "CloseTag"
  | whitespace => "Whitespace"
  | lineComment => "LineComment"
  | blockComment => "BlockComment"
  | varName => "Variable"
  | ident => "Ident"
  | int => "Int"
  | float => "Float"
  | string => "String"
  | heredoc => "Heredoc"
  | shellExec => "ShellExec"
  | attrOpen => "AttrOpen"
  | lParen => "LParen"
  | rParen => "RParen"
  | lBracket => "LBracket"
  | rBracket => "RBracket"
  | lBrace => "LBrace"
  | rBrace => "RBrace"
  | semi => "Semi"
  | comma => "Comma"
  | backslash => "Backslash"
  | fatArrow => "FatArrow"
  | eq => "Eq"
  | doubleColon => "DoubleColon"
  | colon => "Colon"
  | amp => "Amp"
  | ellipsis => "Ellipsis"
  | question => "Question"
  | dollar => "Dollar"
  | op => "Op"
  | error => "Error"

/-- The name that parse errors use. -/
def displayName : TokenKind → String
  | inlineHtml => "inline HTML"
  | openTag => "`<?php`"
  | closeTag => "`?>`"
  | whitespace => "whitespace"
  | lineComment => "comment"
  | blockComment => "comment"
  | varName => "variable"
  | ident => "identifier"
  | int => "integer"
  | float => "float"
  | string => "string"
  | heredoc => "heredoc"
  | shellExec => "shell string"
  | attrOpen => "`#[`"
  | lParen => "`(`"
  | rParen => "`)`"
  | lBracket => "`[`"
  | rBracket => "`]`"
  | lBrace => "`\x7b`"
  | rBrace => "`\x7d`"
  | semi => "`;`"
  | comma => "`,`"
  | backslash => "`\\`"
  | fatArrow => "`=>`"
  | eq => "`=`"
  | doubleColon => "`::`"
  | colon => "`:`"
  | amp => "`&`"
  | ellipsis => "`...`"
  | question => "`?`"
  | dollar => "`$`"
  | op => "operator"
  | error => "invalid input"

/-- The kind that token listings call `s`. -/
def ofName? (s : String) : Option TokenKind := all.find? (·.name == s)

/-- Whitespace and comments. -/
def isTrivia : TokenKind → Bool
  | whitespace | lineComment | blockComment => true
  | _ => false

/-- Tokens that the grammar passes over: trivia and the tags that open the code again. -/
def isSkipped (k : TokenKind) : Bool := k.isTrivia || k == openTag

end TokenKind

/-! ### Tokens -/

/-- A token at the offset `start`. -/
structure Token where
  kind : TokenKind
  start : Nat
  text : Text
deriving DecidableEq, Repr, Inhabited

namespace Token

/-- The offset where the token ends. -/
def stop (t : Token) : Nat := t.start + t.text.size

def span (t : Token) : Span := ⟨t.start, t.stop⟩

def shift (t : Token) (by_ : Nat) : Token := { t with start := t.start + by_ }

theorem stop_shift (t : Token) (n : Nat) : (t.shift n).stop = t.stop + n := by
  simp only [stop, shift]; omega

/-- A token as a listing shows it: its kind and its span. -/
def toText (t : Token) : String := t.kind.name ++ " @ " ++ t.span.toText

end Token

/-! ### Lists of tokens -/

namespace TokenList

/-- How many tokens satisfy `p`, in a list where those that do come first.  Each look halves what is left of the
list. -/
def partitionPoint (p : Token → Bool) (tokens : List Token) : Nat :=
  match h : tokens.drop (tokens.length / 2) with
  | [] => 0
  | t :: rest =>
    if p t then tokens.length / 2 + 1 + partitionPoint p rest
    else partitionPoint p (tokens.take (tokens.length / 2))
termination_by tokens.length
decreasing_by
  all_goals
    have hlength := congrArg List.length h
    simp only [List.length_drop, List.length_take, List.length_cons] at hlength ⊢
    omega

/-- Index of the first token that starts at or after `offset`, in a list ordered by starts. -/
def indexAt (tokens : List Token) (offset : Nat) : Nat := partitionPoint (·.start < offset) tokens

/-- The tokens that lie entirely inside `span`, in a list ordered by starts and by ends. -/
def within (tokens : List Token) (span : Span) : List Token :=
  (tokens.take (partitionPoint (·.stop ≤ span.stop) tokens)).drop (indexAt tokens span.start)

/-- The whole list on one line. -/
def toText (tokens : List Token) : String :=
  "[" ++ String.intercalate ", " (tokens.map Token.toText) ++ "]"

end TokenList

end Graft
