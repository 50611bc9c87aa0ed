/-
Import statements.

Main statements: `Parser.importDecl`.
-/
import Graft.Parse.Extent
import Graft.Tree.File

namespace Graft.Parser

/-- The kind of what is imported: a word that stands right before a name. -/
def importKind? : Parser (Option ImportKind) := do
  let next ← peek? 1
  if next == some .ident || next == some .backslash then
    if ← eatWord "function" then return some .function
    if ← eatWord "const" then return some .const
  return none

/-- The rest of an item behind its name. -/
def finishImportItem (start : Nat) (kind : Option ImportKind) (itemName : Name) : Parser ImportItem := do
  let origin ← fresh
  let localName ← if ← eatWord "as" then some <$> ident "alias" else pure none
  return ⟨some origin, ← spanFrom start, kind, itemName, localName⟩

/-- An item; only in a group may it have a kind of its own. -/
def importItem (grouped : Bool) : Parser ImportItem := do
  let start ← here
  let kind ← if grouped then importKind? else pure none
  finishImportItem start kind (← name)

/-- The items of a group up to the brace that closes it. -/
def groupItems : Parser (List ImportItem) :=
  loop (fun items => do
    if ← check .rBrace then return .done items
    let items := items ++ [← importItem true]
    if ← eat .comma then return .again items
    return .done items) []

/-- An import statement, at its keyword. -/
def importDecl : Parser Import := do
  let origin ← fresh
  let start ← leadStart
  advance
  let kind := (← importKind?).getD .normal
  let firstStart ← here
  let first ← name
  if (← check .backslash) && (← peek? 1) == some .lBrace then
    advance
    advance
    let regionStart ← prevEnd
    let items ← groupItems
    let close ← expect .rBrace "`\x7d`"
    terminator
    return ⟨some origin, ← spanFrom start, kind, some first, ⟨regionStart, close.start⟩, items⟩
  let firstItem ← finishImportItem firstStart none first
  let items ← loop (fun items => do
    if ← eat .comma then return .again (items ++ [← importItem false])
    return .done items) [firstItem]
  let region ← spanFrom firstStart
  terminator
  return ⟨some origin, ← spanFrom start, kind, none, region, items⟩

end Graft.Parser
