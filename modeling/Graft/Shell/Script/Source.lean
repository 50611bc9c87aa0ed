/-
The text of a script while it is read.

A script is read from its front, with one token of look-ahead.  The body of a here document stands on the lines after
the one that names it; it is cut out of the text as soon as its name has been read, so that the line can be read to
its end as if the body were not there.

Main statements: `Source.cutDocument` (the body of a here document and the text without it), `SyntaxError.message`.
-/
import Graft.Shell.Script

namespace Graft.Shell

/-! ### Tokens -/

inductive Keyword where
  | bang
  | case_
  | do_
  | done
  | elif_
  | else_
  | esac
  | fi
  | for_
  | if_
  | in_
  | then_
  | until_
  | while_
  | open_
  | close
deriving DecidableEq, Repr

namespace Keyword

def text : Keyword → String
  | bang => "!"
  | case_ => "case"
  | do_ => "do"
  | done => "done"
  | elif_ => "elif"
  | else_ => "else"
  | esac => "esac"
  | fi => "fi"
  | for_ => "for"
  | if_ => "if"
  | in_ => "in"
  | then_ => "then"
  | until_ => "until"
  | while_ => "while"
  | open_ => "\x7b"
  | close => "\x7d"

def all : List Keyword :=
  [bang, case_, do_, done, elif_, else_, esac, fi, for_, if_, in_, then_, until_, while_, open_, close]

def ofText? (t : Octets) : Option Keyword := all.find? fun k => k.text.toList == t

/-- A keyword that ends a list of commands. -/
def ends : Keyword → Bool
  | do_ | done | elif_ | else_ | esac | fi | then_ | close => true
  | _ => false

end Keyword

inductive Token where
  | finish
  | newline
  | semicolon
  | background
  | and
  | or
  | pipe
  | open_
  | close
  | caseEnd
  | redirect (descriptor : Nat) (opening : Opening) (stripTabs : Bool)
  | word (word : Word)
  | keyword (k : Keyword)

namespace Token

/-- The name of a token in messages. -/
def name : Token → String
  | finish => "end of file"
  | newline => "newline"
  | semicolon => "\";\""
  | background => "\"&\""
  | and => "\"&&\""
  | or => "\"||\""
  | pipe => "\"|\""
  | open_ => "\"(\""
  | close => "\")\""
  | caseEnd => "\";;\""
  | redirect .. => "redirection"
  | word _ => "word"
  | keyword k => "\"" ++ k.text ++ "\""

/-- A token that ends a list of commands. -/
def ends : Token → Bool
  | finish | close | caseEnd => true
  | keyword k => k.ends
  | _ => false

def isNewline : Token → Bool
  | newline => true
  | _ => false

def isFinish : Token → Bool
  | finish => true
  | _ => false

end Token

/-! ### Sources -/

/-- A text that is no script, with the line on which that shows. -/
structure SyntaxError where
  line : Nat
  reason : String
deriving DecidableEq, Repr

def SyntaxError.message (e : SyntaxError) : String := "Syntax error: " ++ e.reason

structure Source where
  rest : Octets
  line : Nat
  /-- Lines that were cut out behind the present one. -/
  owed : Nat
  /-- A token that was read too early. -/
  pushed : Option Token

namespace Source

def ofOctets (o : Octets) (line : Nat) : Source := ⟨o, line, 0, none⟩

/-- The text without line feeds behind a backslash at its front, and their number. -/
def joined : Octets → Octets × Nat
  | '\\' :: '\n' :: t => let (t, n) := joined t; (t, n + 1)
  | t => (t, 0)

/-- The source from its next character on: a backslash with a line feed is none. -/
def settled (s : Source) : Source :=
  match joined s.rest with
  | (_, 0) => s
  | (t, n) => { s with rest := t, line := s.line + n + s.owed, owed := 0 }

/-- The source behind a character. -/
def behind (c : Char) (t : Octets) (s : Source) : Source :=
  if c = '\n' then { s with rest := t, line := s.line + 1 + s.owed, owed := 0 } else { s with rest := t }

end Source

/-- A reader of scripts. -/
abbrev Reader := StateT Source (Except SyntaxError)

namespace Reader

def fail {α : Type} (reason : String) : Reader α := do throw ⟨(← get).line, reason⟩

/-- The next character. -/
def peek : Reader (Option Char) := do
  modify Source.settled
  return (← get).rest.head?

/-- Takes the next character. -/
def take : Reader (Option Char) := do
  modify Source.settled
  let s ← get
  match s.rest with
  | [] => return none
  | c :: t =>
    set (s.behind c t)
    return some c

/-- Takes the next character as it stands, also a backslash before a line feed. -/
def takeRaw : Reader (Option Char) := do
  let s ← get
  match s.rest with
  | [] => return none
  | c :: t =>
    set (s.behind c t)
    return some c

/-- Leaves out a character if it is the next. -/
def accept (c : Char) : Reader Bool := do
  if (← peek) = some c then
    let _ ← take
    return true
  else return false

/-- Takes characters as long as they pass a test. -/
def takeWhile (p : Char → Bool) : Nat → Reader Octets
  | 0 => return []
  | n + 1 => do
    match ← peek with
    | some c =>
      if p c then
        let _ ← take
        return c :: (← takeWhile p n)
      else return []
    | none => return []

/-- A bound for the number of characters that can be taken. -/
def size : Reader Nat := do return (← get).rest.length + 1

def push (t : Token) : Reader Unit := modify fun s => { s with pushed := some t }

/-- Reads another text and comes back.  Lines are counted on from the present one. -/
def within {α : Type} (o : Octets) (r : Reader α) : Reader α := do
  let s ← get
  set (Source.ofOctets o s.line)
  let a ← r
  set s
  return a

end Reader

/-! ### Here documents -/

namespace Source

/-- The line ends in a backslash that joins the next line to it. -/
def isOpen (line : Octets) : Bool := ((line.reverse.takeWhile (· == '\\')).length) % 2 == 1

/-- The lines of a body up to the one that ends it, the lines behind that one, and the number of all lines that were
passed.  Unless the body is `literal`, a line that is joined to the one before does not end it. -/
def bodyLines (stripTabs literal : Bool) (stop : Octets) : Bool → List Octets → List Octets × List Octets × Nat
  | _, [] => ([], [], 0)
  | isJoined, l :: ls =>
    let line := if stripTabs && !isJoined then l.dropWhile (· == '\t') else l
    if !isJoined && Octets.chomp line == stop then ([], ls, 1)
    else
      let (body, rest, n) := bodyLines stripTabs literal stop (!literal && isOpen (Octets.chomp l)) ls
      (line :: body, rest, n + 1)

/-- The body of a here document, and the source without it. -/
def cutDocument (stripTabs literal : Bool) (stop : Octets) (s : Source) : Octets × Source :=
  let (head, tail) := Text.firstLine s.rest
  match tail with
  | [] => ([], s)
  | c :: tail =>
    let (body, rest, n) := bodyLines stripTabs literal stop false (Octets.closedLines tail)
    (body.flatten, { s with rest := head ++ c :: rest.flatten, owed := s.owed + n })

end Source

end Graft.Shell
