/-
The tools that a shell finds on its search path.

Main statements: `Tool.catalogue`, `Tool.find?`, `find?_isSome_iff` (which names are those of tools).
-/
import Graft.Shell.Tool.Copying
import Graft.Shell.Tool.Editor
import Graft.Shell.Tool.Fields
import Graft.Shell.Tool.Find
import Graft.Shell.Tool.Launch
import Graft.Shell.Tool.Listing
import Graft.Shell.Tool.Numbers
import Graft.Shell.Tool.Order
import Graft.Shell.Tool.Search

namespace Graft.Shell.Tool

/-- The tools by their names. -/
def catalogue : List (String × Program) :=
  [("[", bracket), ("basename", basename), ("cat", cat), ("chmod", chmod), ("comm", comm), ("cp", cp), ("cut", cut),
    ("dirname", dirname), ("echo", echo), ("egrep", grep (some 'E')), ("env", env), ("expr", expr), ("false", refuse),
    ("fgrep", grep (some 'F')), ("find", find), ("fold", fold), ("grep", grep none), ("head", head), ("ln", ln),
    ("ls", ls), ("mkdir", mkdir), ("mv", mv), ("nice", nice), ("nl", nl), ("nohup", nohup), ("paste", paste),
    ("printenv", printenv), ("printf", printf), ("pwd", pwd), ("readlink", readlink), ("realpath", realpath),
    ("rev", rev), ("rm", rm), ("rmdir", rmdir), ("sed", sed), ("seq", seq), ("sleep", sleep), ("sort", sort),
    ("sync", sync), ("tac", tac), ("tail", tail), ("tee", tee), ("test", test "test"), ("timeout", timeout),
    ("touch", touch), ("tr", tr), ("true", succeed), ("truncate", truncate), ("uniq", uniq), ("unlink", unlink),
    ("wc", wc), ("which", which), ("xargs", xargs), ("yes", yes)]

def find? (name : Octets) : Option Program :=
  (catalogue.find? fun entry => entry.1.toList == name).map Prod.snd

/-- The names of tools are those in the catalogue. -/
theorem find?_isSome_iff (name : Octets) :
    (find? name).isSome = true ↔ ∃ entry ∈ catalogue, entry.1.toList = name := by
  simp [find?]

end Graft.Shell.Tool
