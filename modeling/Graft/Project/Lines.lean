/-
Edits of text by lines.

Lines are what stands between line feeds, so that a line feed at the end of a text is a last, empty line, and lines
put together again are the text.

Main statements: `onLines`, `stripBlock`, `removeBlock`, `setVariable`.
-/
import Graft.Text.Blank

namespace Graft.Lines

/-! ### Lines -/

/-- A text with its lines changed. -/
def onLines (g : List Text → List Text) (t : Text) : Text := Text.join ['\n'] (g (Text.splitOn '\n' t))

/-- As many spaces as the blanks at the start of a line have bytes. -/
def indentOf (line : Text) : Text := List.replicate (Text.size line - Text.size line.trimStart) ' '

/-- The text without the lines that contain `search`. -/
def deleteContaining (search : Text) : Text → Text := onLines fun lines => lines.filter fun l => !l.hasPart search

/-- The text with each line that contains `search` replaced, at its indentation. -/
def replaceContaining (search line : Text) : Text → Text :=
  onLines fun lines => lines.map fun l => if l.hasPart search then indentOf l ++ line else l

/-- The text with a line behind each one that contains `search`, at its indentation. -/
def appendAfter (search line : Text) : Text → Text :=
  onLines fun lines => lines.flatMap fun l => if l.hasPart search then [l, indentOf l ++ line] else [l]

/-! ### Comments -/

/-- A line that is a comment without its slashes and one blank behind them. -/
def withoutSlashes? (line : Text) : Option Text :=
  (Text.strip? ['/', '/'] (line.dropWhile Text.isSpace)).map fun rest =>
    line.takeWhile Text.isSpace ++ match rest with
      | c :: t => if Text.isSpace c then t else c :: t
      | [] => []

/-- The text with the commented lines that contain `search` made code. -/
def uncomment (search : Text) : Text → Text :=
  onLines fun lines => lines.map fun l => if l.hasPart search then (withoutSlashes? l).getD l else l

/-! ### Blocks -/

/-- What follows `c` if the text begins with it, or else the text. -/
def dropOne (c : Char) : Text → Text
  | d :: t => if d = c then t else d :: t
  | [] => []

/-- A line is the marker `@tag` in a comment on its own, perhaps in braces. -/
def isMarker (tag line : Text) : Bool :=
  ((do
    let rest ← Text.strip? ['/', '*'] (dropOne '{' (line.dropWhile Text.isSpace))
    let rest ← Text.strip? ('@' :: tag) (rest.dropWhile Text.isSpace)
    let rest ← Text.strip? ['*', '/'] (rest.dropWhile Text.isSpace)
    return (dropOne '}' rest).all Text.isSpace) : Option Bool).getD false

def isStart (tag line : Text) : Bool := isMarker tag line

def isEnd (tag line : Text) : Bool := isMarker ("end-".toList ++ tag) line

/-- The text without the marker lines of a tag. -/
def stripBlock (tag : Text) : Text → Text :=
  onLines fun lines => lines.filter fun l => !isStart tag l && !isEnd tag l

/-- The lines outside of blocks.  A block runs from a start through the next end, or to the last line. -/
def outside (tag : Text) : Bool → List Text → List Text
  | _, [] => []
  | inside, l :: ls =>
    if isStart tag l then outside tag true ls
    else if inside then outside tag (!isEnd tag l) ls
    else l :: outside tag false ls

/-- The text without the blocks of a tag, markers and content both. -/
def removeBlock (tag : Text) : Text → Text := onLines (outside tag false)

/-! ### Variables -/

/-- The text with `key=value` in place of every line that sets the key, or on a line behind the text. -/
def setVariable (key value : Text) (t : Text) : Text :=
  let opening := key ++ ['=']
  let line := opening ++ value
  let lines := Text.splitOn '\n' t
  if lines.any (·.startsWith opening) then
    Text.join ['\n'] (lines.map fun l => if l.startsWith opening then line else l)
  else t ++ '\n' :: line

end Graft.Lines
