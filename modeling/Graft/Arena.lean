/-
The arena: all text that one session reads, in the order in which it was read.

The file that is edited comes first, so that its spans are offsets into the file; snippets of methods follow.  Tokens
and spans are offsets into the whole arena.  Parsed nodes are numbered through the arena, and the methods that an edit
inserts are kept in it, so that printing can find the text that they came from.

Main statements: `Arena.append`, `tokens_push`, `text_push` (text and tokens are only ever appended), `fragment?_register`.
-/
import Graft.Token.Lexer
import Graft.Tree.Class

/-! ### Arenas -/

namespace Graft

/-- One text of an arena, with the indexes of its first token and of the token after its last one. -/
structure Source where
  span : Span
  first : Nat
  stop : Nat
deriving DecidableEq, Repr, Inhabited

structure Arena where
  text : Text
  tokens : List Token
  /-- The texts that were read, in order. -/
  sources : List Source
  /-- The first id that no node has. -/
  nextId : NodeId
  /-- Members read from snippets with their ids, the newest first. -/
  fragments : List (NodeId × Member)

namespace Arena

def empty : Arena := ⟨[], [], [], 0, []⟩

/-- The text under a span, empty for a span that is out of range. -/
def slice (a : Arena) (s : Span) : Text := a.text.slice s.start s.stop

/-- Where a text appended to the arena stands. -/
def nextSource (a : Arena) (t : Text) : Source :=
  ⟨⟨a.text.size, a.text.size + t.size⟩, a.tokens.length, a.tokens.length + (Lexer.lex t).length⟩

/-- Appends a text and its tokens. -/
def push (a : Arena) (t : Text) : Arena :=
  { a with
    text := a.text ++ t
    tokens := a.tokens ++ (Lexer.lex t).map (·.shift a.text.size)
    sources := a.sources ++ [a.nextSource t] }

/-- Appends a text, unless it would reach beyond the largest offset; the range that it then has. -/
def append (a : Arena) (t : Text) : Except Span.RangeError (Source × Arena) := do
  let span ← Span.ofRange a.text.size (a.text.size + t.size)
  return (⟨span, a.tokens.length, (a.push t).tokens.length⟩, a.push t)

theorem text_push (a : Arena) (t : Text) : (a.push t).text = a.text ++ t := rfl

theorem tokens_push (a : Arena) (t : Text) :
    (a.push t).tokens = a.tokens ++ (Lexer.lex t).map (·.shift a.text.size) := rfl

/-- Takes the ids below `n` as given. -/
def reserve (a : Arena) (n : NodeId) : Arena := { a with nextId := max a.nextId n }

/-! ### Members read from snippets -/

/-- Keeps a member, if it was read from text. -/
def register (a : Arena) (m : Member) : Arena :=
  match m.origin with
  | some id => { a with fragments := (id, m) :: a.fragments }
  | none => a

/-- The member kept under an id. -/
def fragment? (a : Arena) (id : NodeId) : Option Member :=
  (a.fragments.find? fun f => f.1 == id).map Prod.snd

theorem fragment?_register {m : Member} {id : NodeId} (a : Arena) (h : m.origin = some id) :
    (a.register m).fragment? id = some m := by
  simp [register, fragment?, h]

/-! ### Lines and columns -/

/-- The line and the column that `n` bytes of text lead to from the given ones. -/
def advance : Nat → Text → Nat × Nat → Nat × Nat
  | _, [], p => p
  | n, c :: t, (line, column) =>
    if c.utf8Size ≤ n then
      advance (n - c.utf8Size) t (if c = '\n' then (line + 1, 1) else (line, column + c.utf8Size))
    else (line, column + n)

/-- Line and column of an offset, both from 1; columns count bytes. -/
def lineColumn (a : Arena) (offset : Nat) : Nat × Nat := advance offset a.text (1, 1)

end Arena

end Graft
