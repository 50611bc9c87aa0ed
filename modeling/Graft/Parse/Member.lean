/-
Members of classes: trait clauses, properties, methods with the direct statements of their bodies.

Main statements: `Parser.member`, `Parser.block`.
-/
import Graft.Parse.Expr
import Graft.Tree.Class

namespace Graft.Parser

/-! ### Bodies of methods -/

/-- A return statement; the end of the text ends it too. -/
def returnStmt : Parser ReturnStmt := do
  let origin ← fresh
  let start ← leadStart
  advance
  let bare := (← atEnd) || (← check .semi) || (← check .closeTag)
  let value ← if bare then pure none else some <$> expr .statement
  unless ← atEnd do terminator
  return ⟨some origin, ← spanFrom start, value⟩

def bodyStmt : Parser BodyStmt := do
  if ← checkWord "return" then return .ret (← returnStmt)
  return .other (← verbatim)

/-- The current token closes a block.  The end of the text is an error. -/
def atBlockEnd : Parser Bool := do
  if ← check .rBrace then return true
  if ← atEnd then unexpected "`\x7d`"
  return false

/-- A block with the direct statements of a method. -/
def block : Parser Block := do
  let origin ← fresh
  let opening ← expect .lBrace "`\x7b`"
  let stmts ← manyUntil atBlockEnd bodyStmt
  let close ← expect .rBrace "`\x7d`"
  return ⟨some origin, ⟨opening.start, close.stop⟩, ⟨opening.stop, close.start⟩, stmts⟩

/-! ### Members -/

/-- The modifier that the current token is. -/
def modifier? : Parser (Option Modifiers) := do
  let c ← cursor
  return if c.check .ident then Modifiers.ofKeyword? c.text else none

/-- The modifiers before a declaration. -/
def modifiers : Parser Modifiers :=
  loop (fun found => do
    match ← modifier? with
    | some m =>
      advance
      return .again (found.union m)
    | none => return .done found) .none

/-- A clause that uses traits, at its keyword. -/
def traitUse (start : Nat) : Parser TraitUse := do
  let origin ← fresh
  advance
  let names ← nameList
  let region ← spanFrom ((names.head?.map (·.span.start)).getD start)
  let adaptations ← if ← check .lBrace then some <$> skipGroup else do
    terminator
    pure none
  return ⟨some origin, ← spanFrom start, region, names, adaptations⟩

/-- The return type of a method ends at the current token. -/
def atTypeEnd : Parser Bool := return (← atEnd) || (← check .lBrace) || (← check .semi)

/-- A method, at its keyword. -/
def method (start : Nat) (mods : Modifiers) : Parser Method := do
  let origin ← fresh
  advance
  discard (eat .amp)
  let methodName ← ident "method name"
  unless ← check .lParen do unexpected "`(`"
  discard skipGroup
  if ← eat .colon then
    skipUntil atTypeEnd do
      if ← check .lParen then discard skipGroup else advance
  let body ← if ← check .lBrace then some <$> block else do
    terminator
    pure none
  return ⟨some origin, ← spanFrom start, mods, methodName, body⟩

/-- Consumes the type of a property. -/
def propertyType : Parser Unit :=
  loop (fun _ => do
    match ← kind? with
    | some .varName => return .done ()
    | none | some .semi | some .lBrace | some .rBrace => unexpected "property or method"
    | some .lParen =>
      discard skipGroup
      return .again ()
    | some _ =>
      advance
      return .again ()) ()

/-- A property with its default. -/
def propertyItem : Parser PropertyItem := do
  let origin ← fresh
  let t ← expect .varName "property name"
  let default ← if ← eat .eq then some <$> expr .default else pure none
  return ⟨some origin, ← spanFrom t.start, ⟨⟨t.start + 1, t.stop⟩, t.text.drop 1⟩, default⟩

/-- A declaration of properties, at their type.  The last one may have hooks in braces. -/
def property (start : Nat) (mods : Modifiers) : Parser Property := do
  let origin ← fresh
  propertyType
  let items ← sepByComma propertyItem
  if ← check .lBrace then discard skipGroup else terminator
  return ⟨some origin, ← spanFrom start, mods, items⟩

/-- A member with its attributes. -/
def member : Parser Member := do
  let start ← leadStart
  skipAttributes
  if ← checkWord "use" then return .traitUse (← traitUse start)
  let mods ← modifiers
  if (← checkWord "const") || (← checkWord "case") then
    let rest ← verbatim
    return .other { rest with span := ⟨start, rest.span.stop⟩ }
  if ← checkWord "function" then return .method (← method start mods)
  if ← check .semi then
    let origin ← fresh
    advance
    return .other ⟨some origin, ← spanFrom start⟩
  return .property (← property start mods)

end Graft.Parser
