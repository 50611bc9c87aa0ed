/-
Parsers: actions on a cursor and a supply of node ids.

A parser changes the cursor and takes ids; an error leaves both as they are where it arises, so that ids given to a
failed attempt stay given.  Loops run on a budget computed from the tokens ahead, which is never used up because each
round but the last consumes a token.

Main statements: `Parser.loop`, `Parser.fresh`.
-/
import Graft.Parse.Cursor

/-! ### Parsers -/

namespace Graft

structure ParseState where
  cursor : Cursor
  /-- The next id to give. -/
  nextId : NodeId
deriving DecidableEq, Repr

/-- An action that reads tokens and may fail. -/
abbrev Parser := EStateM ParseError ParseState

namespace Parser

def cursor : Parser Cursor := return (← get).cursor

/-- Moves the cursor. -/
def moveTo (c : Cursor) : Parser Unit := modify fun s => { s with cursor := c }

/-- Takes an id. -/
def fresh : Parser NodeId := modifyGet fun s => (s.nextId, { s with nextId := s.nextId + 1 })

/-! ### Looking -/

def check (k : TokenKind) : Parser Bool := return (← cursor).check k

def checkWord (w : String) : Parser Bool := return (← cursor).checkWord w

def atEnd : Parser Bool := return (← cursor).atEnd

def kind? : Parser (Option TokenKind) := return (← cursor).kind?

def peek? (n : Nat) : Parser (Option TokenKind) := return (← cursor).peek? n

/-- Where the current token starts. -/
def here : Parser Nat := return (← cursor).span.start

/-- Where the current token and its comments start. -/
def leadStart : Parser Nat := return (← cursor).leadStart

/-- Where the last consumed token ended. -/
def prevEnd : Parser Nat := return (← cursor).prevEnd

/-- The span from `start` to the end of the last consumed token. -/
def spanFrom (start : Nat) : Parser Span := return ⟨start, ← prevEnd⟩

/-- Fails at the current token. -/
def unexpected {α : Type} (expected : String) : Parser α := do throw ((← cursor).unexpected expected)

/-! ### Consuming -/

def advance : Parser Unit := do moveTo (← cursor).advance

/-- Consumes the current token if it has the kind `k`. -/
def eat (k : TokenKind) : Parser Bool := do
  let found ← check k
  if found then advance
  return found

/-- Consumes the current token if it is the word `w`. -/
def eatWord (w : String) : Parser Bool := do
  let found ← checkWord w
  if found then advance
  return found

/-- Consumes a token of the kind `k`. -/
def expect (k : TokenKind) (expected : String) : Parser Token := do
  match (← cursor).expect k expected with
  | .ok t => advance; return t
  | .error e => throw e

/-- Consumes the group that the current bracket opens. -/
def skipGroup : Parser Span := do
  let (result, c) := (← cursor).skipGroup
  moveTo c
  match result with
  | .ok span => return span
  | .error e => throw e

/-! ### Loops -/

/-- How a round of a loop ends. -/
inductive Round (σ β : Type) where
  | again (state : σ)
  | done (result : β)

/-- At most `budget` rounds. -/
def rounds {σ β : Type} (step : σ → Parser (Round σ β)) : Nat → σ → Parser β
  | 0, _ => do throw ⟨.invalidToken, (← cursor).span⟩
  | budget + 1, s => do
    match ← step s with
    | .again s => rounds step budget s
    | .done b => return b

/-- Rounds until one is the last; every round but the last consumes a token. -/
def loop {σ β : Type} (step : σ → Parser (Round σ β)) (s : σ) : Parser β := do
  rounds step ((← cursor).ahead.length + 1) s

/-- The results of `item` until `finished` holds, which is asked before each of them. -/
def manyUntil {α : Type} (finished : Parser Bool) (item : Parser α) : Parser (List α) :=
  loop (fun found => do
    if ← finished then return .done found
    return .again (found ++ [← item])) []

/-- Repeats `step` until `finished` holds. -/
def skipUntil (finished : Parser Bool) (step : Parser Unit) : Parser Unit :=
  loop (fun _ => do
    if ← finished then return .done ()
    step
    return .again ()) ()

/-- One or more results of `item` with commas between them. -/
def sepByComma {α : Type} (item : Parser α) : Parser (List α) := do
  let first ← item
  loop (fun found => do
    if ← eat .comma then return .again (found ++ [← item])
    return .done found) [first]

end Parser

end Graft
