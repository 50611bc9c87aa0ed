/-
What a command name leads to.

A name with a slash is the name of a file.  Any other name is looked for in the directories of the search path: the
directory of the recorders, those of the tools, and directories with executable files of the project.

Main statements: `Lookup.find`, `Lookup.recorders`, `Lookup.recorderScript`.
-/
import Graft.Shell.Tool.Catalogue

namespace Graft.Shell

/-- What runs when a command is called. -/
inductive Executable where
  | tool (p : Program)
  /-- A shell, which runs a script of its own. -/
  | shell
  /-- A script that is run by a shell under a name. -/
  | script (name text : Octets)
  /-- A file that is run by another program. -/
  | interpreted (program : List Octets) (name : Octets)

namespace Lookup

/-! ### Recorders -/

/-- The directory of the recorders. -/
def recorderDirectory : Octets := "/srv/recorders".toList

/-- The commands that are only recorded. -/
def recorders : List String := ["composer", "npm", "php"]

/-- What a recorder does: it writes its name and its arguments behind a log, and ends with the status that a file
holds. -/
def recorderScript : Octets :=
  ("\x7b printf '%s' \"$\x7b0##*/\x7d\"; for a in \"$@\"; do printf ' [%s]' \"$a\"; done; echo; \x7d >> calls.log\n" ++
    "[ -f exit-code ] && exit \"$(cat exit-code)\"\nexit 0\n").toList

/-! ### Directories -/

/-- The directories that hold the tools. -/
def toolDirectories : List String := ["/usr/bin", "/bin"]

/-- The search path of programs for which none is set. -/
def defaultPath : Octets := "/bin:/usr/bin".toList

/-- The search path of a shell. -/
def searchPath : Octets :=
  recorderDirectory ++ [':'] ++ "/usr/local/sbin:/usr/local/bin:/usr/sbin:/usr/bin:/sbin:/bin".toList

def shells : List String := ["sh", "dash", "bash"]

def isTool (name : Octets) : Bool := (Tool.find? name).isSome || shells.any (·.toList == name)

def toolNamed? (name : Octets) : Option Executable :=
  if shells.any (·.toList == name) then some .shell else (Tool.find? name).map .tool

/-- The directory and the last part of a name. -/
def splitName (name : Octets) : Octets × Octets :=
  let last := (Text.afterLast? '/' name).getD name
  (name.take (name.length - last.length - 1), last)

/-- The program that the first line of a script names. -/
def interpreter? (text : Octets) : Option (List Octets) :=
  (Text.strip? ['#', '!'] text).map fun rest =>
    Octets.fields (fun c => c == ' ' || c == '\t') (Text.firstLine rest).1

/-- How the content of a file is run. -/
def ofContent (name text : Octets) : Executable :=
  match interpreter? text with
  | some (program :: options) =>
    if shells.any (·.toList == (splitName program).2) then .script name text
    else .interpreted (program :: options) name
  | _ => .script name text

/-- What a name with a slash leads to; or else the status and the reason of a failure. -/
def named (s : Session) (name : Octets) : Except (Nat × String) Executable :=
  let (dir, last) := splitName name
  let special : Option Executable :=
    if dir = recorderDirectory && recorders.any (·.toList == last) then some (.script name recorderScript)
    else if toolDirectories.any (·.toList == dir) then toolNamed? last
    else none
  match special with
  | some e => .ok e
  | none =>
    match s.entryAt? name with
    | .ok (some (.file c executable)) =>
      if executable then .ok (ofContent name (Act.contentOf c)) else .error (126, "Permission denied")
    | .ok (some .directory) => .error (126, "Permission denied")
    | _ => .error (127, "not found")

/-- The full name and the executable that a command name leads to; `otherwise` is the search path when none is set. -/
def find (s : Session) (otherwise name : Octets) : Except (Nat × String) (Octets × Executable) :=
  if name.isEmpty then .error (127, "Permission denied")
  else if name.contains '/' then (named s name).map fun e => (name, e)
  else
    let path := ((s.env.bindings.find? (·.1 == "PATH".toList)).bind fun b => b.2.value).getD otherwise
    let names := (Text.splitOn ':' path).map fun dir => if dir.isEmpty then name else dir ++ '/' :: name
    let try_ (full : Octets) : Option (Octets × Executable) :=
      let full := if full.contains '/' then full else '.' :: '/' :: full
      (named s full).toOption.map fun e => (full, e)
    match names.findSome? try_ with
    | some found => .ok found
    | none => .error (127, "not found")

end Lookup

end Graft.Shell
