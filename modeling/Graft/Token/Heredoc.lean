/-
The extent of heredocs and block comments.

Both begin with a fixed opening text and end where their closing text first appears.  A heredoc names its own closing
text: after `<<<` stands a label, alone on its line and perhaps in quotes, and the heredoc ends right after the first
later line start where, behind blanks, that label stands and no name goes on.

Main statements: `Heredoc.extent?` and `BlockComment.extent?` answer a number of characters after the opener, or
nothing when the text is not closed.
-/
import Graft.Token.Table

/-! ### Heredocs -/

namespace Graft.Heredoc

open TokenTable (isLabelPart)

/-- The label that the opening line names, and the number of characters through that line's break. -/
def opening? (t : Text) : Option (Text × Nat) :=
  let blanks := t.takeWhile Text.isIndent
  let t := t.dropWhile Text.isIndent
  let (quote, t) : Text × Text := match t with
    | '\'' :: r => (['\''], r)
    | '"' :: r => (['"'], r)
    | r => ([], r)
  let label := t.takeWhile isLabelPart
  let t := t.dropWhile isLabelPart
  if label.isEmpty then none
  else match Text.strip? quote t with
    | none => none
    | some ('\n' :: _) => some (label, blanks.length + 2 * quote.length + label.length + 1)
    | some ('\r' :: '\n' :: _) => some (label, blanks.length + 2 * quote.length + label.length + 2)
    | some _ => none

/-- The number of characters through the closing label, when the line that begins here is a closing line. -/
def closing? (label line : Text) : Option Nat :=
  match Text.strip? label (line.dropWhile Text.isIndent) with
  | none => none
  | some after =>
    if after.head?.any isLabelPart then none
    else some ((line.takeWhile Text.isIndent).length + label.length)

/-- The number of characters through the first closing label; `atStart` tells that a line begins here. -/
def body? (label : Text) (atStart : Bool) : Text → Option Nat
  | [] => if atStart then closing? label [] else none
  | c :: t =>
    match (if atStart then closing? label (c :: t) else none) with
    | some n => some n
    | none => (body? label (c == '\n') t).map (· + 1)

/-- The number of characters of a heredoc after its `<<<`. -/
def extent? (t : Text) : Option Nat :=
  (opening? t).bind fun (label, n) => (body? label true (t.drop n)).map (n + ·)

end Graft.Heredoc

/-! ### Block comments -/

namespace Graft.BlockComment

/-- The number of characters of a comment after its opener, through the first closing mark. -/
def extent? (t : Text) : Option Nat := (Text.locate? "*/".toList t).map (· + 2)

end Graft.BlockComment
