/-
Declarations of classes, interfaces, traits and enums.

Main statements: `Parser.atClassLike`, `Parser.classLike`.
-/
import Graft.Parse.Member

namespace Graft.Parser

/-! ### Headers -/

/-- Attributes and modifiers at the cursor lead into a declaration.  The cursor stays where it is. -/
def atClassLike : Parser Bool := do
  let saved ← cursor
  skipAttributes
  discard modifiers
  let c ← cursor
  moveTo saved
  return (ClassKind.ofKeyword? c.text).isSome && c.check .ident && c.peek? 1 == some .ident

/-- The clauses of a header. -/
structure Header where
  parents : List Name
  interfaces : List Name
  interfacesClause : Option Span
  interfacesRegion : Span

/-- The clauses between the name of a class and its body. -/
def header (kind : ClassKind) : Parser Header :=
  loop (fun h => do
    if ← eatWord "extends" then return .again { h with parents := ← nameList }
    if ← checkWord "implements" then
      let start ← prevEnd
      advance
      let names ← nameList
      let region ← spanFrom ((names.head?.map (·.span.start)).getD start)
      return .again
        { h with interfaces := names, interfacesClause := some (← spanFrom start), interfacesRegion := region }
    if kind == .enum then
      if ← eat .colon then
        discard name
        return .again h
    return .done h) ⟨[], [], none, .dummy⟩

/-! ### Declarations -/

/-- A declaration, at its attributes. -/
def classLike : Parser ClassLike := do
  let origin ← fresh
  let start ← leadStart
  skipAttributes
  let mods ← modifiers
  let keyword ← expect .ident "`class`"
  match ClassKind.ofKeyword? keyword.text with
  | none => throw ⟨.unexpectedToken "`class`" keyword.kind, keyword.span⟩
  | some kind =>
    let className ← ident "class name"
    let h ← header kind
    let anchor := (h.interfacesClause.map (·.start)).getD (← prevEnd)
    let opening ← expect .lBrace "`\x7b`"
    let members ← manyUntil atBlockEnd member
    let close ← expect .rBrace "`\x7d`"
    return {
      origin := some origin
      span := ⟨start, close.stop⟩
      kind
      modifiers := mods
      name := className
      parents := h.parents
      interfaces := h.interfaces
      interfacesClause := h.interfacesClause
      interfacesRegion := h.interfacesRegion
      interfacesAnchor := anchor
      body := ⟨opening.stop, close.start⟩
      members }

end Graft.Parser
