/-
Programs that a shell runs.

A program is an action on the state of the shells, by its arguments; its value is a status.  Here are the things that
programs have in common: how they read options, how they quote names in messages, and how they get at their input.

Main statements: `Program`, `OptionTable.read` (the options and the operands among arguments), `quoted`, `eachInput`.
-/
import Graft.Shell.Session

namespace Graft.Shell

/-! ### Programs -/

/-- What a program needs of the shell that runs it. -/
structure Host where
  /-- The full name of a program; or else the status and the reason of a failure. -/
  find : Octets → Act (Except (Nat × String) Octets)
  /-- Runs a command as a process of its own. -/
  call : List Octets → Act Nat
  /-- Runs a script in the present shell, with a text before messages about errors in it. -/
  interpret : Octets → Octets → Act Unit

/-- A program by its arguments. -/
abbrev Program := Host → List Octets → Act Nat

namespace Program

/-! ### Names in messages -/

def isPrintable (c : Char) : Bool := ' ' ≤ c && c ≤ '~'

/-- Runs of characters that can be printed and of those that cannot. -/
def runs : Octets → List (Bool × Octets)
  | [] => []
  | c :: t =>
    match runs t with
    | (printable, o) :: rest =>
      if printable = isPrintable c then (printable, c :: o) :: rest else (isPrintable c, [c]) :: (printable, o) :: rest
    | [] => [(isPrintable c, [c])]

/-- A character as an escape. -/
def escaped (c : Char) : Octets :=
  match c with
  | '\n' => ['\\', 'n']
  | '\t' => ['\\', 't']
  | '\r' => ['\\', 'r']
  | '\x07' => ['\\', 'a']
  | '\x08' => ['\\', 'b']
  | '\x0b' => ['\\', 'v']
  | '\x0c' => ['\\', 'f']
  | c =>
    let digits := Octets.inBase 8 c.toNat
    '\\' :: List.replicate (3 - digits.length) '0' ++ digits

/-- A name in quotes, as a shell would read it. -/
def quoted (name : Octets) : Octets :=
  let single (o : Octets) : Octets := ['\''] ++ Text.replace ['\''] "'\\''".toList o ++ ['\'']
  let needsSingle (c : Char) : Bool := c == '"' || c == '$' || c == '`' || c == '\\' || c == '!'
  if name.all isPrintable then
    if name.contains '\'' && !name.any needsSingle then ['"'] ++ name ++ ['"'] else single name
  else
    let pieces := (runs name).map fun (printable, o) =>
      if printable then single o else ['$', '\''] ++ o.flatMap escaped ++ ['\'']
    match runs name with
    | (false, _) :: _ => ['\'', '\''] ++ pieces.flatten
    | _ => pieces.flatten

/-- A character that a shell would not take as it is. -/
def needsQuotes (c : Char) : Bool :=
  !isPrintable c || " !\"$&'()*:;<=>?[\\^`|".toList.contains c

/-- A name in quotes if a shell would need them. -/
def quotedIfNeeded (name : Octets) : Octets :=
  let atFront := match name with
    | '#' :: _ | '~' :: _ => true
    | _ => false
  if name.isEmpty || atFront || name.any needsQuotes then quoted name else name

/-! ### Messages -/

/-- Writes a message of a program. -/
def complain (program : String) (message : Octets) : Act Unit :=
  Act.write 2 (program.toList ++ [':', ' '] ++ message ++ ['\n'])

/-- Complains about a file. -/
def complainOf (program : String) (name : Octets) (e : IoError) : Act Unit :=
  complain program (quotedIfNeeded name ++ [':', ' '] ++ e.reason.toList)

/-- Complains about what could not be done with a file. -/
def complainAbout (program what : String) (name : Octets) (reason : String) : Act Unit :=
  complain program (what.toList ++ [' '] ++ quoted name ++ [':', ' '] ++ reason.toList)

/-- Complains and tells where help is; the value is the status. -/
def misuse (program : String) (status : Nat) (message : Octets) : Act Nat := do
  complain program message
  Act.write 2 ("Try '".toList ++ program.toList ++ " --help' for more information.\n".toList)
  return status

/-- Works on one operand after the other.  The status is one if something failed. -/
def eachOperand (operands : List Octets) (f : Octets → Act Bool) : Act Nat := do
  let mut status := 0
  for o in operands do
    if !(← f o) then status := 1
  return status

def writeLine (o : Octets) : Act Unit := Act.write 1 (o ++ ['\n'])

/-! ### Options -/

/-- An option takes an argument. -/
inductive Takes where
  | nothing
  | maybe
  | one
deriving DecidableEq, Repr

/-- The options that a program knows: letters, and words that mean a letter. -/
structure OptionTable where
  letters : List (Char × Takes)
  words : List (String × Char)
  /-- Options may stand behind operands. -/
  mixed : Bool

/-- A table from a text of letters, those with an argument before a colon, those that may have one before two. -/
def OptionTable.ofString (letters : String) (words : List (String × Char)) (mixed : Bool) : OptionTable :=
  let rec go : Octets → List (Char × Takes)
    | c :: ':' :: ':' :: t => (c, .maybe) :: go t
    | c :: ':' :: t => (c, .one) :: go t
    | c :: t => (c, .nothing) :: go t
    | [] => []
  ⟨go letters.toList, words, mixed⟩

/-- An option as it was given. -/
abbrev Given := Char × Octets

namespace OptionTable

def takes? (t : OptionTable) (c : Char) : Option Takes := (t.letters.find? (·.1 == c)).map Prod.snd

/-- The options that one argument holds behind its dash, and a letter that takes the next argument. -/
def cluster (t : OptionTable) : Octets → Except Octets (List Given × Option Char)
  | [] => .ok ([], none)
  | c :: rest =>
    match t.takes? c with
    | none => .error ("invalid option -- '".toList ++ [c, '\''])
    | some .nothing => (cluster t rest).map fun (gs, needs) => ((c, []) :: gs, needs)
    | some .maybe => .ok ([(c, rest)], none)
    | some .one => if rest.isEmpty then .ok ([], some c) else .ok ([(c, rest)], none)

/-- The letter that a word means; it may be shortened. -/
def letterOf (t : OptionTable) (word : Octets) : Except Octets Char :=
  match t.words.find? (·.1.toList == word), t.words.filter fun w => Text.startsWith w.1.toList word with
  | some w, _ | none, [w] => .ok w.2
  | none, [] => .error ("unrecognized option '--".toList ++ word ++ ['\''])
  | none, w :: ws =>
    if ws.all fun v => v.2 == w.2 then .ok w.2
    else .error ("option '--".toList ++ word ++ "' is ambiguous; possibilities:".toList ++
      (w :: ws).flatMap fun v => " '--".toList ++ v.1.toList ++ ['\''])

/-- The option that a word is, and a letter that takes the next argument. -/
def word (t : OptionTable) (o : Octets) : Except Octets (List Given × Option Char) := do
  let (name, value) : Octets × Option Octets := match Text.cut? '=' o with
    | some (name, value) => (name, some value)
    | none => (o, none)
  let c ← t.letterOf name
  let full := ((t.words.find? fun w => w.1.toList == name || (Text.startsWith w.1.toList name && w.2 == c)).map
    fun w => w.1.toList).getD name
  match (t.takes? c).getD .nothing, value with
  | .nothing, some _ => throw ("option '--".toList ++ full ++ "' doesn't allow an argument".toList)
  | .one, none => return ([], some c)
  | _, v => return ([(c, v.getD [])], none)

/-- The options and the operands among arguments, for which the bound lasts. -/
def readFrom (t : OptionTable) : Nat → List Octets → Except Octets (List Given × List Octets)
  | 0, _ => .ok ([], [])
  | _ + 1, [] => .ok ([], [])
  | n + 1, a :: rest =>
    let next (gs : List Given) (rest : List Octets) : Except Octets (List Given × List Octets) :=
      (readFrom t n rest).map fun (hs, operands) => (gs ++ hs, operands)
    match a with
    | ['-', '-'] => .ok ([], rest)
    | '-' :: '-' :: w => do
      match ← t.word w, rest with
      | (gs, none), _ => next gs rest
      | (_, some _), [] => throw ("option '--".toList ++ w ++ "' requires an argument".toList)
      | (gs, some c), v :: rest => next (gs ++ [(c, v)]) rest
    | '-' :: c :: cs => do
      match ← t.cluster (c :: cs), rest with
      | (gs, none), _ => next gs rest
      | (_, some d), [] => throw ("option requires an argument -- '".toList ++ [d, '\''])
      | (gs, some d), v :: rest => next (gs ++ [(d, v)]) rest
    | a =>
      if t.mixed then (readFrom t n rest).map fun (gs, operands) => (gs, a :: operands) else .ok ([], a :: rest)

/-- The options and the operands among arguments; or else what is wrong. -/
def read (t : OptionTable) (arguments : List Octets) : Except Octets (List Given × List Octets) :=
  t.readFrom (arguments.length + 1) arguments

end OptionTable

/-- The options that were given. -/
structure Options where
  given : List Given

namespace Options

def has (o : Options) (c : Char) : Bool := o.given.any (·.1 == c)

/-- The argument of the last use of an option. -/
def value? (o : Options) (c : Char) : Option Octets := ((o.given.filter (·.1 == c)).getLast?).map Prod.snd

/-- The arguments of all uses of an option. -/
def values (o : Options) (c : Char) : List Octets := (o.given.filter (·.1 == c)).map Prod.snd

/-- The one of some options that was given last. -/
def last? (o : Options) (letters : String) : Option Char :=
  ((o.given.filter fun g => letters.toList.contains g.1).getLast?).map Prod.fst

end Options

/-- A program by its options and operands. -/
def withOptions (program : String) (status : Nat) (t : OptionTable) (body : Options → List Octets → Act Nat)
    (arguments : List Octets) : Act Nat :=
  match t.read arguments with
  | .ok (given, operands) => body ⟨given⟩ operands
  | .error message => misuse program status message

/-! ### Input -/

/-- The input of a program under a name; a dash is the standard input. -/
def input (name : Octets) : Act (Except IoError Octets) := do
  if name = ['-'] then
    match ← Act.readAll? 0 with
    | some o => return .ok o
    | none => return .error (.other "Bad file descriptor")
  else Act.contents name

/-- Works on one input after the other, on the standard input if none is named.  The status tells whether one could not
be read. -/
def eachInput (program : String) (status : Nat) (names : List Octets) (f : Octets → Octets → Act Unit) : Act Nat := do
  let mut result := 0
  for name in (if names.isEmpty then [['-']] else names) do
    match ← input name with
    | .ok o => f name o
    | .error e =>
      complainOf program name e
      result := status
  return result

/-- The path of a file whose content is replaced at its name. -/
def replaceFile (name o : Octets) : Act (Except IoError Unit) := do
  match (← get).place name with
  | .error e => return .error e
  | .ok .sink => return .ok ()
  | .ok (.descriptor d) =>
    Act.write d o
    return .ok ()
  | .ok (.path p) =>
    match ← Act.openPath .write false p with
    | .ok n =>
      Act.writeTo n o
      return .ok ()
    | .error e => return .error e

end Program

end Graft.Shell
