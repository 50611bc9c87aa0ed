/-
Indentation of lines.

Main statements: `lineIndent`, `reindent`.
-/
import Graft.Text.Blank
import Graft.Print.Output

namespace Graft

/-- The blanks that the line around an offset begins with. -/
def lineIndent (t : Text) (offset : Nat) : Text :=
  let before := (Text.take? offset t).getD t
  let after := (Text.drop? offset t).getD []
  ((Text.afterLast? '\n' before).getD before ++ after).takeWhile Text.isIndent

/-- One more step of indentation. -/
def deeper (indent : Text) : Text := indent ++ [' ', ' ', ' ', ' ']

/-- A line that stood at the indentation `from_`, behind a break and at the indentation `to_`.  Blank lines are
empty. -/
def reindentLine (from_ to_ : Text) (newline : Newline) (line : Text) : Text :=
  let line := line.stripCR
  newline.text ++
    if line.all Text.isBlank then [] else to_ ++ (Text.strip? from_ line).getD line.trimStart

/-- A text, whose first line has been placed, with its other lines moved from one indentation to another. -/
def reindent (from_ to_ : Text) (newline : Newline) (t : Text) : Text :=
  match Text.splitOn '\n' t with
  | [] => []
  | line :: lines => line.stripCR ++ lines.flatMap (reindentLine from_ to_ newline)

end Graft
