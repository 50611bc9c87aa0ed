/-
Expressions.

An array or a literal is structured where it is the whole expression; any other expression is consumed up to the token
that ends it and kept verbatim.

Main statements: `Parser.expr`, `Parser.arrayLit` (an array literal, or nothing with the cursor where it was).
-/
import Graft.Parse.Extent
import Graft.Literal.Quoted
import Graft.Literal.Number

namespace Graft

/-! ### Where expressions end -/

/-- What surrounds an expression. -/
inductive ExprContext where
  /-- Behind `return`. -/
  | statement
  /-- The default of a property. -/
  | default
  /-- The first expression of an array entry. -/
  | key
  /-- The value of an array entry with a key. -/
  | value
deriving DecidableEq, Repr

/-- A token of the kind `k` ends an expression.  Closing brackets that nothing opened always do. -/
def ExprContext.isEnd (ctx : ExprContext) (k : TokenKind) : Bool :=
  match k with
  | .rParen | .rBracket | .rBrace => true
  | .semi | .closeTag => ctx == .statement || ctx == .default
  | .comma => ctx != .statement
  | .fatArrow => ctx == .key
  | _ => false

namespace Parser

/-- The current token ends an expression. -/
def atExprEnd (ctx : ExprContext) : Parser Bool := return (← kind?).all ctx.isEnd

/-! ### Literals -/

/-- The literal of a token of the given kind, by its text and whether a minus stands before it. -/
def literalOf? (kind : TokenKind) (text : Text) (negative : Bool) (id : NodeId) (span : Span) : Option Expr :=
  match kind with
  | .string => (Literal.decode? text).map fun value => .string ⟨some id, span, value⟩
  | .int => (Literal.integer? text negative).map fun value => .int ⟨some id, span, value⟩
  | .float => (Literal.float? text negative).map fun value => .float ⟨some id, span, value⟩
  | _ => none

/-- Gives up on an expression: the cursor goes back to where it was. -/
def giveUp (saved : Cursor) : Parser (Option Expr) := do
  moveTo saved
  return none

/-- A literal, or the name of a constant, that is the rest of an expression which began at `start`, perhaps with a
minus. -/
def literalBehindSign (ctx : ExprContext) (saved : Cursor) (start : Nat) (negative : Bool) : Parser (Option Expr) := do
  match (← cursor).current? with
  | none => giveUp saved
  | some t =>
    if (t.kind == .ident || t.kind == .backslash) && !negative then
      let constant ← name
      if ← atExprEnd ctx then
        -- Every literal draws an id; a constant keeps that of its name.
        discard fresh
        return some (.const constant)
      giveUp saved
    else if (literalOf? t.kind t.text negative 0 .dummy).isSome then
      -- The literal must be the whole expression; only then does it draw an id.
      advance
      if ← atExprEnd ctx then return literalOf? t.kind t.text negative (← fresh) ⟨start, t.stop⟩
      giveUp saved
    else giveUp saved

/-- A literal or the name of a constant that is the whole expression.  Otherwise the cursor stays where it was. -/
def literal (ctx : ExprContext) : Parser (Option Expr) := do
  let saved ← cursor
  let start ← here
  let next ← peek? 1
  let negative := saved.check .op && saved.text == ['-'] && (next == some .int || next == some .float)
  if negative then advance
  literalBehindSign ctx saved start negative

/-! ### Arrays -/

/-- An array begins at the current token. -/
def atArray : Parser Bool := do
  if ← check .lBracket then return true
  return (← checkWord "array") && (← peek? 1) == some .lParen

/-- An entry of an array. -/
def arrayItem (expr : ExprContext → Parser Expr) : Parser (ArrayItem Expr) := do
  let origin ← fresh
  let start ← here
  let unpack ← eat .ellipsis
  let byRef ← eat .amp
  let first ← expr .key
  if ← eat .fatArrow then
    let byRef ← eat .amp
    let value ← expr .value
    return ⟨some origin, ← spanFrom start, some first, value, byRef, unpack⟩
  return ⟨some origin, ← spanFrom start, none, first, byRef, unpack⟩

/-- The entries of an array up to the bracket that closes it, which stays; nothing when an entry is missing between
commas or is not followed by a comma or that bracket. -/
def arrayItems (expr : ExprContext → Parser Expr) (closer : TokenKind) :
    Parser (Option (List (ArrayItem Expr))) :=
  loop (fun items => do
    if ← check closer then return .done (some items)
    -- An entry is missing.
    if (← check .comma) || (← atExprEnd .value) then return .done none
    let items := items ++ [← arrayItem expr]
    if ← eat .comma then return .again items
    if ← check closer then return .done (some items)
    return .done none) []

/-- An array literal, whose opening bracket is ahead.  Where its entries cannot be structured the cursor stays where
it was. -/
def arrayLit (expr : ExprContext → Parser Expr) : Parser (Option (ArrayLit Expr)) := do
  let saved ← cursor
  let start ← here
  let short ← eat .lBracket
  -- The long form has a word and a parenthesis.
  unless short do
    advance
    advance
  let closer := if short then TokenKind.rBracket else .rParen
  let regionStart ← prevEnd
  match ← arrayItems expr closer with
  | none =>
    moveTo saved
    return none
  | some items =>
    let close ← expect closer "array end"
    return some ⟨some (← fresh), ⟨start, close.stop⟩, short, ⟨regionStart, close.start⟩, items⟩

/-! ### Expressions -/

/-- The array or the literal that begins at the current token, if it is the whole expression.  After an array that is
not, the cursor rests behind it. -/
def structured (expr : ExprContext → Parser Expr) (ctx : ExprContext) : Parser (Option Expr) := do
  if ← atArray then
    match ← arrayLit expr with
    | some a => if ← atExprEnd ctx then return some (.array a)
    | none => pure ()
    return none
  literal ctx

/-- An expression with at most the given number of arrays around each other. -/
def exprWithin : Nat → ExprContext → Parser Expr
  | 0, _ => unexpected "expression"
  | depth + 1, ctx => do
    if ← atExprEnd ctx then unexpected "expression"
    let start ← here
    match ← structured (exprWithin depth) ctx with
    | some e => return e
    | none =>
      skipUntil (atExprEnd ctx) skipOne
      return .other ⟨some (← fresh), ← spanFrom start⟩

/-- An expression; there are no more arrays around each other than there are tokens. -/
def expr (ctx : ExprContext) : Parser Expr := do exprWithin ((← cursor).ahead.length + 1) ctx

end Parser

end Graft
