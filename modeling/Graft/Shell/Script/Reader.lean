/-
Reading scripts.

A script is read one complete line at a time, so that the lines before one with an error can run.  What stands inside
of a command, a list of commands again, is read by a reader that is an argument of the readers here; it is given by a
bound for the depth, which the length of the text is.

Main statements: `Reader.list`, `Reader.command`, `Reader.nextLine?` (the commands of the next complete line).
-/
import Graft.Shell.Script.Words

namespace Graft.Shell

namespace Reader

/-! ### Tokens -/

/-- Takes blanks and comments. -/
def skipBlanks : Nat → Reader Unit
  | 0 => return
  | n + 1 => do
    match ← peek with
    | some ' ' | some '\t' =>
      let _ ← take
      skipBlanks n
    | some '#' =>
      modify fun s => { s with rest := s.rest.dropWhile (· ≠ '\n') }
    | _ => return

/-- The opening that a sign of a redirection stands for, behind its first character. -/
def opening (c : Char) : Reader (Opening × Bool) := do
  if c = '>' then
    if ← accept '>' then return (.append, false)
    if ← accept '|' then return (.overwrite, false)
    if ← accept '&' then return (.duplicate, false)
    return (.write, false)
  else
    if ← accept '<' then return (.document, ← accept '-')
    if ← accept '&' then return (.duplicate, false)
    if ← accept '>' then return (.readWrite, false)
    return (.read, false)

def redirect (c : Char) (descriptor : Option Nat) : Reader Token := do
  let (o, stripTabs) ← opening c
  return .redirect (descriptor.getD (if c = '>' then 1 else 0)) o stripTabs

/-- The next token, a word as it is read in a surrounding. -/
def rawToken (word : Surrounding → Reader Word) (around : Surrounding) : Reader Token := do
  skipBlanks (← size)
  let either (c : Char) (double single : Token) : Reader Token := do return if ← accept c then double else single
  match ← peek with
  | none => return .finish
  | some c =>
    if isMeta c then let _ ← take
    match c with
    | '\n' => return .newline
    | '&' => either '&' .and .background
    | '|' => either '|' .or .pipe
    | ';' => either ';' .caseEnd .semicolon
    | '(' => return .open_
    | ')' => return .close
    | '<' | '>' => redirect c none
    | _ =>
      let w ← word around
      match w, ← peek with
      | [.char d false], some s =>
        if d.isDigit && (s == '<' || s == '>') then
          let _ ← take
          redirect s (some (Octets.digitValue d))
        else return .word w
      | _, _ => return .word w

/-- Takes line feeds. -/
def skipNewlines (raw : Reader Token) : Nat → Token → Reader Token
  | 0, t => return t
  | n + 1, t => if t.isNewline then do skipNewlines raw n (← raw) else return t

/-- The next token.  On demand, line feeds before it are left out and words may be keywords. -/
def token (word : Surrounding → Reader Word) (keywords newlines : Bool) : Reader Token := do
  let raw : Reader Token := do
    match (← get).pushed with
    | some t =>
      modify fun s => { s with pushed := none }
      return t
    | none => rawToken word .plain
  let t ← raw
  let t ← if newlines then skipNewlines raw (← size) t else pure t
  match t with
  | .word w =>
    if !keywords then return t
    match w.literal?.bind Keyword.ofText? with
    | some k => return .keyword k
    | none => return t
  | t => return t

/-- A token that is not in its place. -/
def unexpected {α : Type} (t : Token) (expected : Option Token) : Reader α :=
  fail (t.name ++ " unexpected" ++ match expected with
    | some e => " (expecting " ++ e.name ++ ")"
    | none => "")

/-! ### Commands -/

/-- What the readers of commands need: the tokens, and lists of commands that stand inside of others. -/
structure Parts where
  word : Surrounding → Reader Word
  /-- A list of commands that is not empty, up to a token that ends it. -/
  body : Reader Script
  /-- A list of commands that may be empty. -/
  optional : Reader Script
  command : Reader Script

namespace Parts

variable (p : Parts)

def next (keywords newlines : Bool) : Reader Token := token p.word keywords newlines

def expect (k : Keyword) (newlines : Bool) : Reader Unit := do
  match ← p.next true newlines with
  | .keyword l => if l = k then return else unexpected (.keyword l) (some (.keyword k))
  | t => unexpected t (some (.keyword k))

/-- The target of a redirection. -/
def redirection (descriptor : Nat) (o : Opening) (stripTabs : Bool) : Reader Redirection := do
  let t ← if o = .document then rawToken p.word .mark else p.next false false
  match t with
  | .word w =>
    if o ≠ .document then return .redirection descriptor o w
    let literal := w.isQuoted
    let (body, s) := (← get).cutDocument stripTabs literal w.characters
    set s
    if literal then return .redirection descriptor o (body.map fun c => .char c true)
    return .redirection descriptor o (← within body (p.word .document))
  | t => unexpected t none

/-- The redirections behind a command. -/
def redirections : Nat → Reader (List Redirection)
  | 0 => return []
  | n + 1 => do
    match ← p.next true false with
    | .redirect d o stripTabs =>
      let r ← p.redirection d o stripTabs
      return r :: (← redirections n)
    | t =>
      push t
      return []

/-- Names that no function may have. -/
def reservedNames : List String :=
  [".", ":", "break", "continue", "eval", "exec", "exit", "export", "readonly", "return", "set", "shift", "times", "trap",
    "unset"]

/-- The rest of a simple command, or a function when brackets follow its name. -/
def simple (line : Nat) : Nat → List (Octets × Word) → List Word → List Redirection → Reader Script
  | 0, assignments, words, redirections => return .simple line assignments words redirections
  | n + 1, assignments, words, redirections => do
    let t ← p.next false false
    match t with
    | .word w =>
      match (if words.isEmpty then w.assignment? else none) with
      | some a => simple line n (assignments ++ [a]) words redirections
      | none => simple line n assignments (words ++ [w]) redirections
    | .redirect d o stripTabs =>
      let r ← p.redirection d o stripTabs
      simple line n assignments words (redirections ++ [r])
    | .open_ =>
      match assignments, words, redirections with
      | [], [w], [] =>
        match ← p.next false false with
        | .close =>
          match w.literal? with
          | some name =>
            if !Octets.isName name || reservedNames.any (·.toList == name) then fail "Bad function name"
            let line := (← get).line
            push (← p.next true true)
            return .define line name (← p.command)
          | none => fail "Bad function name"
        | t => unexpected t (some .close)
      | _, _, _ =>
        push t
        return .simple line assignments words redirections
    | t =>
      push t
      return .simple line assignments words redirections

/-- What follows a condition: its commands, and those for when it fails. -/
def alternatives : Nat → Script → Reader Script
  | 0, condition => return .choice condition .empty .empty
  | n + 1, condition => do
    p.expect .then_ false
    let yes ← p.body
    match ← p.next true false with
    | .keyword .elif_ => return .choice condition yes (← alternatives n (← p.body))
    | .keyword .else_ => return .choice condition yes (← p.body)
    | t =>
      push t
      return .choice condition yes .empty

/-- Words up to one that is none. -/
def words : Nat → Reader (List Word × Token)
  | 0 => return ([], .finish)
  | n + 1 => do
    match ← p.next false false with
    | .word w =>
      let (ws, t) ← words n
      return (w :: ws, t)
    | t => return ([], t)

/-- The patterns of one case up to the bracket. -/
def patterns : Nat → Token → Reader (List Word)
  | 0, _ => return []
  | n + 1, t => do
    let w : Word := match t with
      | .word w => w
      | .keyword k => k.text.toList.map fun c => .char c false
      | _ => []
    match ← p.next false false with
    | .pipe => return w :: (← patterns n (← p.next false false))
    | .close => return [w]
    | t => unexpected t (some .close)

/-- The cases of a selection up to its end. -/
def cases : Nat → Reader (List (List Word × Script))
  | 0 => return []
  | n + 1 => do
    match ← p.next true true with
    | .keyword .esac => return []
    | t =>
      let t ← match t with
        | .open_ => p.next false false
        | t => pure t
      let ws ← p.patterns n t
      let body ← p.optional
      match ← p.next true true with
      | .keyword .esac => return [(ws, body)]
      | .caseEnd => return (ws, body) :: (← cases n)
      | t => unexpected t (some .caseEnd)

/-- A loop over words, behind its keyword. -/
def each (line n : Nat) : Reader Script := do
  match ← p.next false false with
  | .word w =>
    match w.literal? with
    | some name =>
      if !Octets.isName name then fail "Bad for loop variable"
      let ws ← match ← p.next true true with
        | .keyword .in_ =>
          match ← p.words n with
          | (ws, .newline) | (ws, .semicolon) => pure ws
          | (_, t) => unexpected t none
        | .semicolon => pure [Word.arguments]
        | t =>
          push t
          pure [Word.arguments]
      p.expect .do_ true
      let body ← p.body
      p.expect .done false
      return .each line name ws body
    | none => fail "Bad for loop variable"
  | _ => fail "Bad for loop variable"

/-- A command with the redirections behind it. -/
def withRedirections (line n : Nat) (body : Script) : Reader Script := do
  match ← p.redirections n with
  | [] => return body
  | rs => return .redirected line body rs

/-- A command. -/
def commandFrom : Reader Script := do
  let n ← size
  let t ← p.next true false
  let line := (← get).line
  match t with
  | .keyword .if_ =>
    let c ← p.alternatives n (← p.body)
    p.expect .fi false
    p.withRedirections line n c
  | .keyword .while_ | .keyword .until_ =>
    let until_ := match t with
      | .keyword .until_ => true
      | _ => false
    let condition ← p.body
    p.expect .do_ false
    let body ← p.body
    p.expect .done false
    p.withRedirections line n (.loop until_ condition body)
  | .keyword .for_ => p.withRedirections line n (← p.each line n)
  | .keyword .case_ =>
    match ← p.next false false with
    | .word w =>
      p.expect .in_ true
      p.withRedirections line n (.select line w (← p.cases n))
    | t => unexpected t (some (.word []))
  | .keyword .open_ =>
    let body ← p.body
    p.expect .close false
    p.withRedirections line n body
  | .open_ =>
    let body ← p.body
    match ← p.next true false with
    | .close => return .subshell line body (← p.redirections n)
    | t => unexpected t (some .close)
  | .word _ | .redirect .. =>
    push t
    p.simple line n [] [] []
  | t => unexpected t none

/-- The commands behind a pipe. -/
def piped : Nat → Reader (List Script)
  | 0 => return []
  | n + 1 => do
    match ← p.next false false with
    | .pipe =>
      push (← p.next true true)
      let c ← p.command
      return c :: (← piped n)
    | t =>
      push t
      return []

def pipeline : Reader Script := do
  let t ← p.next true false
  let negated := match t with
    | .keyword .bang => true
    | _ => false
  if !negated then push t
  let c ← p.command
  let cs ← p.piped (← size)
  let s : Script := if cs.isEmpty then c else .pipeline (c :: cs)
  return bif negated then .negated s else s

/-- The commands joined to a first one by its status. -/
def joined : Nat → Script → Reader Script
  | 0, first => return first
  | n + 1, first => do
    match ← p.next false false with
    | .and =>
      push (← p.next true true)
      joined n (.both first (← p.pipeline))
    | .or =>
      push (← p.next true true)
      joined n (.either first (← p.pipeline))
    | t =>
      push t
      return first

def andOr : Reader Script := do p.joined (← size) (← p.pipeline)

/-- How far a list of commands goes. -/
inductive Extent where
  /-- To the end of a line. -/
  | line
  /-- To a token that ends it; it has a command. -/
  | body
  /-- To a token that ends it. -/
  | optional
deriving DecidableEq

/-- The commands of a list behind those that have been read. -/
def listFrom (extent : Extent) : Nat → List Script → Reader (List Script)
  | 0, done => return done
  | n + 1, done => do
    let t ← p.next true (extent != .line)
    match t with
    | .newline => return done
    | .finish =>
      push t
      return done
    | t =>
      push t
      if (extent == .optional || !done.isEmpty) && t.ends then return done
      let c ← p.andOr
      match ← p.next false false with
      | .background => listFrom extent n (done ++ [.background c])
      | .semicolon => listFrom extent n (done ++ [c])
      | .newline =>
        push .newline
        listFrom extent n (done ++ [c])
      | .finish =>
        push .finish
        listFrom extent n (done ++ [c])
      | t =>
        if extent == .line then unexpected t none
        push t
        return done ++ [c]

def list (extent : Extent) : Reader Script := do
  match ← p.listFrom extent (← size) [] with
  | [] => return .empty
  | [c] => return c
  | cs => return .sequence cs

/-- The rest of a script in a word, up to its bracket. -/
def untilBracket : Reader Script := do
  let s ← p.list .optional
  match ← p.next true false with
  | .close => return s
  | t => unexpected t (some .close)

/-- A script to its end. -/
def untilEnd : Reader Script := do
  let s ← p.list .optional
  match ← p.next true false with
  | .finish => return s
  | t => unexpected t (some .finish)

end Parts

/-! ### Scripts -/

/-- The readers for what is nested at most so deep. -/
def parts : Nat → Parts
  | 0 =>
    let refuse {α : Type} : Reader α := fail "Unterminated quoted string"
    ⟨fun _ => refuse, refuse, refuse, refuse⟩
  | n + 1 =>
    let p := parts n
    ⟨pieces p.untilBracket fun _ => p.untilEnd, p.list .body, p.list .optional, p.commandFrom⟩

end Reader

/-! ### Lines -/

/-- The script on the next complete line, and the source behind it; nothing at the end. -/
def Source.nextLine? (s : Source) : Except SyntaxError (Option (Script × Source)) := do
  let p := Reader.parts (2 * s.rest.length + 4)
  let (t, s) ← (p.next true false).run s
  if t.isFinish then return none
  else return some (← (p.list .line).run { s with pushed := some t })

end Graft.Shell
