/-
Scripts of a shell.

A script is made of commands that run one behind the other, by the status of each other, or with the output of one as
the input of the next.  A word of a command is a list of pieces: characters, quoted or not, and expansions, whose
values are known only when the command runs.

Main statements: `Script`, `Piece`, `Word.literal?` (the text of a word without expansions), `Word.assignment?`.
-/
import Graft.Shell.Octets

namespace Graft.Shell

/-! ### Scripts -/

/-- What an expansion of a parameter falls back on. -/
inductive Fallback where
  /-- The word, when there is no value. -/
  | instead
  /-- The word, when there is a value. -/
  | unless
  /-- The word, which becomes the value. -/
  | assigned
  /-- The word is the message of an error. -/
  | complaint
deriving DecidableEq, Repr

/-- How a redirection opens its target. -/
inductive Opening where
  | read
  | write
  /-- The target is emptied also where that is forbidden. -/
  | overwrite
  | append
  | readWrite
  /-- The target is the number of an open file. -/
  | duplicate
  /-- The target is the text that is read. -/
  | document
deriving DecidableEq, Repr

mutual

inductive Piece where
  | char (c : Char) (quoted : Bool)
  /-- A pair of quotes, which keeps a word that is otherwise empty. -/
  | quotes
  | parameter (name : Octets) (form : Form) (quoted : Bool)
  /-- The output of a script. -/
  | output (body : Script) (quoted : Bool)
  /-- The value of an expression. -/
  | value (expression : List Piece) (quoted : Bool)

/-- How the value of a parameter is used. -/
inductive Form where
  | plain
  | length
  /-- Another word in place of the value; an empty value may count as none. -/
  | fallback (kind : Fallback) (orEmpty : Bool) (word : List Piece)
  /-- The value without a part that matches a pattern. -/
  | trimmed (atEnd longest : Bool) (pattern : List Piece)
  /-- A form that has no meaning. -/
  | wrong

inductive Redirection where
  | redirection (descriptor : Nat) (opening : Opening) (target : List Piece)

inductive Script where
  | empty
  | simple (line : Nat) (assignments : List (Octets × List Piece)) (words : List (List Piece))
    (redirections : List Redirection)
  | sequence (parts : List Script)
  /-- The second runs when the first succeeds. -/
  | both (first second : Script)
  /-- The second runs when the first fails. -/
  | either (first second : Script)
  | negated (body : Script)
  /-- Each reads what the one before it writes. -/
  | pipeline (parts : List Script)
  | background (body : Script)
  | subshell (line : Nat) (body : Script) (redirections : List Redirection)
  | redirected (line : Nat) (body : Script) (redirections : List Redirection)
  | choice (condition yes no : Script)
  /-- The body runs as long as the condition succeeds, or as long as it fails. -/
  | loop (until_ : Bool) (condition body : Script)
  | each (line : Nat) (name : Octets) (words : List (List Piece)) (body : Script)
  /-- The first body of which a pattern matches. -/
  | select (line : Nat) (word : List Piece) (cases : List (List (List Piece) × Script))
  | define (line : Nat) (name : Octets) (body : Script)

end

instance : Inhabited Script := ⟨.empty⟩

abbrev Word := List Piece

/-! ### Words -/

namespace Word

/-- The text of a word that has no quotes and no expansions. -/
def literal? : Word → Option Octets
  | [] => some []
  | .char c false :: w => (literal? w).map (c :: ·)
  | _ :: _ => none

/-- The characters of a word, whether they are quoted or not. -/
def characters (w : Word) : Octets :=
  w.filterMap fun
    | .char c _ => some c
    | _ => none

/-- Some part of the word is quoted. -/
def isQuoted (w : Word) : Bool :=
  w.any fun
    | .char _ quoted => quoted
    | .quotes => true
    | _ => false

/-- The name and the value of a word that is an assignment. -/
def assignment? (w : Word) : Option (Octets × Word) :=
  let name := w.takeWhile fun
    | .char c false => Octets.isNameChar c
    | _ => false
  match w.drop name.length with
  | .char '=' false :: value =>
    let name := characters name
    if Octets.isName name then some (name, value) else none
  | _ => none

/-- The word for all arguments, each kept as it is. -/
def arguments : Word := [.parameter ['@'] .plain true]

end Word

end Graft.Shell
