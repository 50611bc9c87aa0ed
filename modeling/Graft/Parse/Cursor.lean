/-
A cursor over the tokens that matter.

The grammar never sees whitespace, comments or opening tags.  What it does see of a token is a mark: the token and the
offset where its leading comments start.  A cursor is the list of the marks ahead with the end of the last token that
was consumed, so a saved cursor is a cursor and restoring it is using it again.

Main statements: `marks` (the marks of a list of tokens), `Cursor.skipGroup` (consumes one bracketed group),
`closeGroup_le` (it consumes an initial part of what is ahead).
-/
import Graft.Parse.Error

/-! ### Marks -/

namespace Graft

/-- A token that matters. -/
structure Mark where
  token : Token
  /-- Where the comments on the lines above the token start; where the token starts when there are none. -/
  lead : Nat
deriving DecidableEq, Repr

/-- What stands between the last token that matters and the next one. -/
structure Margin where
  /-- Where the comments that belong to the next token start. -/
  lead : Option Nat
  /-- A comment that comes now is on a line of its own. -/
  freshLine : Bool
deriving DecidableEq, Repr

namespace Margin

/-- After a token that matters: a comment on the same line still belongs to it. -/
def afterToken : Margin := ⟨none, false⟩

/-- At the start of the code. -/
def afterTag : Margin := ⟨none, true⟩

/-- The margin with one more piece of trivia. -/
def push (m : Margin) (t : Token) : Margin :=
  if m.lead.isSome then m
  else if t.kind = .whitespace then { m with freshLine := m.freshLine || t.text.contains '\n' }
  else if m.freshLine then { m with lead := some t.start }
  else { m with freshLine := t.kind == .lineComment }

end Margin

/-- The marks of a list of tokens. -/
def marks : Margin → List Token → List Mark
  | _, [] => []
  | m, t :: ts =>
    if t.kind = .openTag then marks .afterTag ts
    else if t.kind.isTrivia then marks (m.push t) ts
    else ⟨t, m.lead.getD t.start⟩ :: marks .afterToken ts

/-! ### Cursors -/

structure Cursor where
  /-- The tokens that are left. -/
  ahead : List Mark
  /-- Where the last consumed token ended. -/
  prevEnd : Nat
  /-- Where the text ends. -/
  eof : Nat
deriving DecidableEq, Repr

namespace Cursor

/-- The cursor before the tokens with indexes from `start` up to but not including `stop`. -/
def ofTokens (tokens : List Token) (start stop eof : Nat) : Cursor :=
  ⟨marks .afterTag ((tokens.take stop).drop start), ((tokens[start]?).map (·.start)).getD eof, eof⟩

def current? (c : Cursor) : Option Token := c.ahead.head?.map Mark.token

def atEnd (c : Cursor) : Bool := c.ahead.isEmpty

def kind? (c : Cursor) : Option TokenKind := c.current?.map Token.kind

/-- The span of the current token; a point at the end of the text when none is left. -/
def span (c : Cursor) : Span := (c.current?.map Token.span).getD (.point c.eof)

def text (c : Cursor) : Text := (c.current?.map Token.text).getD []

/-- Where the current token starts, comments on the lines above it included. -/
def leadStart (c : Cursor) : Nat := (c.ahead.head?.map Mark.lead).getD c.eof

def check (c : Cursor) (k : TokenKind) : Bool := c.kind? == some k

/-- The current token is the word `w`, in any case of letters. -/
def checkWord (c : Cursor) (w : String) : Bool := c.check .ident && c.text.sameIgnoringCase w.toList

/-- The kind of the token that is `n` tokens ahead of the current one. -/
def peek? (c : Cursor) (n : Nat) : Option TokenKind := (c.ahead[n]?).map fun m => m.token.kind

/-- The cursor with the current token consumed. -/
def advance (c : Cursor) : Cursor :=
  match c.ahead with
  | [] => c
  | m :: ms => { c with ahead := ms, prevEnd := m.token.stop }

/-- The error of a current token that does not fit. -/
def unexpected (c : Cursor) (expected : String) : ParseError :=
  match c.current? with
  | some t => ⟨.unexpectedToken expected t.kind, t.span⟩
  | none => ⟨.unexpectedEnd expected, .point c.eof⟩

/-- The current token, consumed, if it has the kind `k`. -/
def expect (c : Cursor) (k : TokenKind) (expected : String) : Except ParseError Token :=
  match c.current? with
  | some t => if t.kind = k then .ok t else .error (c.unexpected expected)
  | none => .error (c.unexpected expected)

/-! ### Bracketed groups -/

/-- The kind that closes a bracket. -/
def closerOf? : TokenKind → Option TokenKind
  | .lParen => some .rParen
  | .lBracket | .attrOpen => some .rBracket
  | .lBrace => some .rBrace
  | _ => none

def isOpener (k : TokenKind) : Bool := (closerOf? k).isSome

def isCloser : TokenKind → Bool
  | .rParen | .rBracket | .rBrace => true
  | _ => false

/-- The bracket that reports of an unclosed group name for what would close it. -/
def openerOf : TokenKind → TokenKind
  | .rBracket => .lBracket
  | .rBrace => .lBrace
  | _ => .lParen

/-- The brackets that are open after one more token: what will close each and where it is, the innermost first.
Nothing when the token closes a bracket that is not the innermost open one. -/
def nest? (pending : List (TokenKind × Span)) (t : Token) : Option (List (TokenKind × Span)) :=
  match closerOf? t.kind with
  | some closer => some ((closer, t.span) :: pending)
  | none =>
    if isCloser t.kind then
      match pending with
      | (closer, _) :: rest => if closer = t.kind then some rest else none
      | [] => none
    else some pending

/-- Consumes tokens until no bracket is open.  The answer holds the number of consumed tokens and the error, if there
is one. -/
def closeGroup (eof : Nat) : List (TokenKind × Span) → List Mark → Nat × Option ParseError
  | [], [] => (0, some ⟨.unclosed .lParen, .point eof⟩)
  | (closer, span) :: _, [] => (0, some ⟨.unclosed (openerOf closer), span⟩)
  | pending, m :: ms =>
    match nest? pending m.token with
    | none => (0, some ⟨.mismatched m.token.kind, m.token.span⟩)
    | some [] => (1, none)
    | some (b :: bs) =>
      let (n, e) := closeGroup eof (b :: bs) ms
      (n + 1, e)

/-- The cursor with `n` tokens consumed. -/
def skip : Nat → Cursor → Cursor
  | 0, c => c
  | n + 1, c => skip n c.advance

theorem ahead_skip (n : Nat) (c : Cursor) : (skip n c).ahead = c.ahead.drop n := by
  induction n generalizing c with
  | zero => rfl
  | succ n ih =>
    rw [skip, ih]
    cases h : c.ahead <;> simp [advance, h]

/-- Consumes the group that the current bracket opens.  On an error the cursor rests where the error shows. -/
def skipGroup (c : Cursor) : Except ParseError Span × Cursor :=
  match closeGroup c.eof [] c.ahead with
  | (n, none) => (.ok ⟨c.span.start, (skip n c).prevEnd⟩, skip n c)
  | (n, some e) => (.error e, skip n c)

theorem closeGroup_le (eof : Nat) (pending : List (TokenKind × Span)) (ms : List Mark) :
    (closeGroup eof pending ms).1 ≤ ms.length := by
  induction ms generalizing pending with
  | nil => cases pending <;> simp [closeGroup]
  | cons m ms ih =>
    simp only [closeGroup]
    split
    · simp
    · simp
    · simp only [List.length_cons, Nat.add_le_add_iff_right]
      exact ih _

end Cursor

end Graft
