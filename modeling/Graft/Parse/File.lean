/-
Files, and methods on their own.

Reading a text appends it to the arena, whatever comes of it.  A method is read inside of a class that is wrapped
around it.

Main statements: `Arena.parseFile`, `Arena.parseMethod`.
-/
import Graft.Parse.ClassLike
import Graft.Parse.Import

namespace Graft

namespace Parser

/-! ### Statements -/

/-- A statement outside of any class. -/
def stmt : Parser Stmt := do
  if (← checkWord "use") && (← peek? 1) != some .lParen then return .imports (← importDecl)
  if ← checkWord "declare" then return .declare (← verbatim)
  if ← checkWord "return" then return .ret (← returnStmt)
  if ← atClassLike then return .classLike (← classLike)
  if ← check .inlineHtml then
    let origin ← fresh
    let span := (← cursor).span
    advance
    return .other ⟨some origin, span⟩
  return .other (← verbatim)

/-! ### Namespaces -/

/-- A namespace is declared at the current token: not a name that begins with the keyword. -/
def atNamespace : Parser Bool := do
  let next ← peek? 1
  return (← checkWord "namespace") && (next == some .ident || next == some .lBrace)

/-- A namespace, at its keyword. -/
def namespaceDecl : Parser Namespace := do
  let origin ← fresh
  let start ← leadStart
  advance
  let nsName ← if ← check .ident then some <$> name else pure none
  if ← eat .lBrace then
    let bodyStart ← prevEnd
    let stmts ← manyUntil atBlockEnd stmt
    let close ← expect .rBrace "`\x7d`"
    return ⟨some origin, ⟨start, close.stop⟩, nsName, true, ⟨bodyStart, close.start⟩, stmts⟩
  terminator
  let bodyStart ← prevEnd
  let stmts ← manyUntil (return (← atEnd) || (← atNamespace)) stmt
  return ⟨some origin, ← spanFrom start, nsName, false, ← spanFrom bodyStart, stmts⟩

def topStmt : Parser TopStmt := do
  if ← atNamespace then return .inside (← namespaceDecl)
  return .plain (← stmt)

/-! ### Files -/

/-- A file with the given extent, whose code starts at `bodyStart`. -/
def file (span : Span) (bodyStart : Nat) : Parser File := do
  let origin ← fresh
  let stmts ← manyUntil atEnd topStmt
  return ⟨some origin, span, ⟨bodyStart, span.stop⟩, stmts⟩

end Parser

/-! ### Reading texts into an arena -/

namespace Arena

/-- The index of the first token of code in a source, and the offset where the code starts: behind the first opening
tag, which only text outside of the code may precede. -/
def codeStart (a : Arena) (s : Source) : Nat × Nat :=
  let tokens := (a.tokens.take s.stop).drop s.first
  let html := tokens.takeWhile (·.kind == .inlineHtml)
  match tokens[html.length]? with
  | some t => if t.kind = .openTag then (s.first + html.length + 1, t.stop) else (s.first, s.span.start)
  | none => (s.first, s.span.start)

/-- Parses a source of the arena.  Ids that a failed attempt took stay taken. -/
def parseSource (a : Arena) (s : Source) : Except ParseError File × Arena :=
  match ((a.tokens.take s.stop).drop s.first).find? (·.kind == .error) with
  | some bad => (.error ⟨.invalidToken, bad.span⟩, a)
  | none =>
    let (start, bodyStart) := a.codeStart s
    match (Parser.file s.span bodyStart).run ⟨.ofTokens a.tokens start s.stop s.span.stop, a.nextId⟩ with
    | .ok f st => (.ok f, a.reserve st.nextId)
    | .error e st => (.error e, a.reserve st.nextId)

/-- Appends a text and parses it. -/
def parseFile (a : Arena) (t : Text) : Except ParseError File × Arena := (a.push t).parseSource (a.nextSource t)

/-! ### Methods on their own -/

/-- A class around a method. -/
def wrapMethod (code : Text) : Text :=
  "<?php\nclass __DUMMY__ \x7b\n".toList ++ code ++ "\n\x7d\n".toList

/-- The first method of the first class with one. -/
def firstMethod? (f : File) : Option Method :=
  (f.stmts.filterMap fun s => s.plain?.bind Stmt.classLike?).findSome? fun c => c.members.findSome? Member.method?

/-- Appends the declaration of a method and parses it; nothing when the code declares none. -/
def parseMethod (a : Arena) (code : Text) : Except ParseError (Option Method) × Arena :=
  match a.parseFile (wrapMethod code) with
  | (.ok f, a) => (.ok (firstMethod? f), a)
  | (.error e, a) => (.error e, a)

end Arena

end Graft
