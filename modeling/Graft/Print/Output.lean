/-
Line breaks and text under construction.

Main statements: `Newline.ofText` (the break that a text uses), `Output` (a text that is only appended to).
-/
import Graft.Text

/-! ### Line breaks -/

namespace Graft

inductive Newline where
  | lf
  | crlf
deriving DecidableEq, Repr

namespace Newline

def text : Newline → Text
  | lf => ['\n']
  | crlf => ['\r', '\n']

/-- The break that the first line of a text ends with. -/
def ofText (t : Text) : Newline :=
  match t.firstLine with
  | (_, []) => lf
  | (line, _ :: _) => if line.getLast? = some '\r' then crlf else lf

end Newline

/-! ### Text under construction -/

/-- A text to which pieces are appended, with the break that its lines end with. -/
structure Output where
  newline : Newline
  text : Text
deriving DecidableEq, Repr

namespace Output

/-- Nothing yet. -/
def empty (newline : Newline) : Output := ⟨newline, []⟩

def emit (o : Output) (t : Text) : Output := { o with text := o.text ++ t }

/-- Ends the line. -/
def breakLine (o : Output) : Output := o.emit o.newline.text

def size (o : Output) : Nat := o.text.size

def isEmpty (o : Output) : Bool := o.text.isEmpty

theorem text_emit (o : Output) (t : Text) : (o.emit t).text = o.text ++ t := rfl

theorem size_emit (o : Output) (t : Text) : (o.emit t).size = o.size + t.size := by
  simp [size, emit]

end Output

end Graft
