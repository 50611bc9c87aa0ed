/-
Expanding the words of a script.

The pieces of a word become marked characters.  A mark tells whether a character is active in a pattern and whether it
is fresh, that is, comes from a value: only fresh characters part a word into fields.  The output of a script in a word
is taken by a function that is an argument here.

Main statements: `Expansion.split` (the fields of marked characters), `split_chars` (a word without values is one
field), `Expansion.fields`, `Expansion.text`, `Expansion.pattern`.
-/
import Graft.Shell.Arithmetic
import Graft.Shell.Wildcard

namespace Graft.Shell

/-! ### Marks -/

inductive Mark where
  | char (c : Char) (active fresh : Bool)
  /-- The field is kept when it is empty. -/
  | keep
  /-- The quotes around are no reason to keep the field. -/
  | vanish
  /-- One field ends and another begins. -/
  | gap
deriving DecidableEq, Repr

namespace Mark

/-- Characters that stand for themselves. -/
def plain (o : Octets) : List Mark := o.map fun c => char c false false

/-- The characters of a value. -/
def fresh (quoted : Bool) (o : Octets) : List Mark := o.map fun c => char c (!quoted) (!quoted)

/-- The characters of a word in place of a value. -/
def refreshed : Mark → Mark
  | char c active _ => char c active active
  | m => m

end Mark

namespace Expansion

/-! ### Fields -/

/-- The field that is being read. -/
structure Draft where
  done : List Wildcard.Marked := []
  current : Wildcard.Marked := []
  /-- The field is there, if only by quotes. -/
  isOpen : Bool := false
  /-- How many quotes keep the field, less those that do not. -/
  kept : Int := 0
  /-- The field before was ended by blanks, to which another sign may belong. -/
  afterBlank : Bool := false

namespace Draft

/-- The end of a field. -/
def close (d : Draft) (afterBlank : Bool) : Draft :=
  let isThere := d.isOpen && (!d.current.isEmpty || d.kept > 0)
  { done := if isThere then d.current.reverse :: d.done else d.done, afterBlank := afterBlank }

/-- A sign that ends a field; without one before it, the field is empty. -/
def closeBySign (d : Draft) : Draft :=
  if d.isOpen then d.close false
  else if d.afterBlank then { d with afterBlank := false }
  else { d with done := [] :: d.done }

def step (separators : Octets) (d : Draft) : Mark → Draft
  | .keep => { d with isOpen := true, kept := d.kept + 1 }
  | .vanish => { d with isOpen := true, kept := d.kept - 1 }
  | .gap => d.close false
  | .char c active fresh =>
    if fresh && separators.contains c then
      if c == ' ' || c == '\t' || c == '\n' then (if d.isOpen then d.close true else d) else d.closeBySign
    else { d with current := (c, active) :: d.current, isOpen := true }

end Draft

/-- The fields of marked characters, which separators part. -/
def split (separators : Octets) (marks : List Mark) : List Wildcard.Marked :=
  ((marks.foldl (Draft.step separators) {}).close false).done.reverse

theorem foldl_step_chars (separators o : Octets) (d : Draft) (ho : o ≠ []) :
    (Mark.plain o).foldl (Draft.step separators) d =
      { d with current := o.reverse.map (fun c => (c, false)) ++ d.current, isOpen := true } := by
  induction o generalizing d with
  | nil => exact absurd rfl ho
  | cons c o ih =>
    have hs : Draft.step separators d (.char c false false) =
        { d with current := (c, false) :: d.current, isOpen := true } := by simp [Draft.step]
    simp only [Mark.plain, List.map_cons, List.foldl_cons, hs]
    by_cases h : o = []
    · subst h; rfl
    · have := ih { d with current := (c, false) :: d.current, isOpen := true } h
      simp only [Mark.plain] at this
      rw [this]
      simp

/-- Characters that stand for themselves are one field. -/
theorem split_chars (separators o : Octets) (ho : o ≠ []) :
    split separators (Mark.plain o) = [o.map fun c => (c, false)] := by
  have hr : o.reverse ≠ [] := by simpa using ho
  simp [split, foldl_step_chars separators o _ ho, Draft.close, ho]

/-! ### Parameters -/

/-- The characters that part fields. -/
def separators : Act Octets := do return (← Act.lookup? "IFS".toList).getD [' ', '\t', '\n']

/-- The value of a parameter that is not a list. -/
def value? (name : Octets) : Act (Option Octets) := do
  let e ← Act.env
  match name with
  | ['?'] => return some (Text.ofNat e.status)
  | ['$'] => return some (Text.ofNat e.process)
  | ['!'] => return e.lastProcess.map Text.ofNat
  | ['#'] => return some (Text.ofNat e.arguments.length)
  | ['-'] => return some e.flags.reverse
  | _ =>
    match Octets.nat? name with
    | some 0 => return some e.name
    | some (n + 1) => return e.arguments[n]?
    | none => Act.lookup? name

/-- The name is that of all arguments. -/
def isList (name : Octets) : Bool := name == ['@'] || name == ['*']

/-- The marks of all arguments. -/
def listMarks (name : Octets) (quoted : Bool) : Act (List Mark) := do
  let arguments := (← Act.env).arguments
  if quoted && name == ['*'] then
    return Mark.fresh true (Text.join ((← separators).take 1) arguments)
  if arguments.isEmpty then return if quoted then [.vanish] else []
  return List.intercalate [.gap] (arguments.map fun a =>
    if quoted then .keep :: Mark.fresh true a else Mark.fresh false a)

/-- The marks as one text. -/
def joined (marks : List Mark) : Act Octets := do
  let s := (← separators).take 1
  return marks.flatMap fun
    | .char c _ _ => [c]
    | .gap => s
    | _ => []

/-- An error unless an unknown parameter is as good as an empty one. -/
def requireSet (name : Octets) (value : Option Octets) : Act Octets := do
  match value with
  | some v => return v
  | none =>
    if (← Act.hasFlag 'u') && !isList name then Act.fail (name ++ ": parameter not set".toList)
    return []

/-! ### Pieces -/

/-- The text of marks as an argument of a script in a word. -/
abbrev Capture := Script → Act Octets

variable (capture : Capture)

/-- Replaces a tilde in front, and behind colons if it is a value. -/
def tilde (home : Octets) (isValue : Bool) : Bool → Word → Word
  | _, [] => []
  | atStart, p :: w =>
    match p with
    | .char '~' false =>
      let ends : Bool := match w with
        | [] => true
        | .char c false :: _ => c == '/' || (isValue && c == ':')
        | _ => false
      if atStart && ends then (home.map fun c => .char c true) ++ tilde home isValue false w
      else p :: tilde home isValue false w
    | .char ':' false => p :: tilde home isValue isValue w
    | p => p :: tilde home isValue false w

/-- The marks of a word, whose braces are nested at most so deep. -/
def marks : Nat → Word → Act (List Mark)
  | 0, _ => return []
  | n + 1, w => do
    let parts ← w.mapM (piece (marks n))
    return parts.flatten
where
  /-- The marks of a piece. -/
  piece (inner : Word → Act (List Mark)) : Piece → Act (List Mark)
    | .char c quoted => return [.char c (!quoted) false]
    | .quotes => return [.keep]
    | .output body quoted => do
      let o ← capture body
      return Mark.fresh quoted (Octets.chompAll (o.filter (· != Char.ofNat 0)))
    | .value expression quoted => do
      let text ← joined (← inner expression)
      return Mark.fresh quoted (Text.ofInt (← Expression.evalOctets text))
    | .parameter name form quoted => parameter inner name quoted form
  /-- The marks of a parameter. -/
  parameter (inner : Word → Act (List Mark)) (name : Octets) (quoted : Bool) : Form → Act (List Mark)
    | .wrong => Act.fail "Bad substitution".toList
    | .plain => do
      if isList name then listMarks name quoted
      else return Mark.fresh quoted (← requireSet name (← value? name))
    | .length => do
      let v ← if isList name then joined (← listMarks name quoted) else requireSet name (← value? name)
      return Mark.fresh quoted (Text.ofNat v.length)
    | .trimmed atEnd longest pattern => do
      let v ← if isList name then joined (← listMarks name quoted) else requireSet name (← value? name)
      let p := (← inner pattern).filterMap fun
        | .char c active _ => some (c, active)
        | _ => none
      return Mark.fresh quoted (Wildcard.trim atEnd longest (Wildcard.ofMarked p) v)
    | .fallback kind orEmpty word => do
      let v ← if isList name then
          let m ← listMarks name quoted
          if m.all (· == .vanish) then pure none else some <$> joined m
        else value? name
      let isThere := v.any fun v => !(orEmpty && v.isEmpty)
      let present : Act (List Mark) :=
        if isList name then listMarks name quoted else return Mark.fresh quoted (v.getD [])
      let replaced : Act (List Mark) := do return (← inner word).map Mark.refreshed
      match kind with
      | .instead => if isThere then present else replaced
      | .unless => if isThere then replaced else return []
      | .assigned =>
        if isThere then present
        else
          if !Octets.isName name then Act.fail (name ++ ": bad variable name".toList)
          let v ← joined (← inner word)
          Act.assign name v
          return Mark.fresh quoted v
      | .complaint =>
        if isThere then present
        else
          let message ← joined (← inner word)
          let message := if word.isEmpty then
              "parameter not set".toList ++ if orEmpty then " or null".toList else []
            else message
          Act.fail (name ++ [':', ' '] ++ message)

/-- A bound for the depth of braces. -/
def maxDepth : Nat := 1000

/-- The directory that a tilde stands for. -/
def homeDirectory : Act Octets := Act.valueOf "HOME"

/-- The word as one text. -/
def text (w : Word) : Act Octets := do
  joined (← marks capture maxDepth (tilde (← homeDirectory) false true w))

/-- The text of a word that becomes a value. -/
def assigned (w : Word) : Act Octets := do
  joined (← marks capture maxDepth (tilde (← homeDirectory) true true w))

/-- The word as a pattern. -/
def pattern (w : Word) : Act (List Wildcard) := do
  let m ← marks capture maxDepth (tilde (← homeDirectory) false true w)
  return Wildcard.ofMarked (m.filterMap fun
    | .char c active _ => some (c, active)
    | _ => none)

/-- The arguments that a word becomes: its fields, and the names of files in place of those that are patterns. -/
def fields (w : Word) : Act (List Octets) := do
  let m ← marks capture maxDepth (tilde (← homeDirectory) false true w)
  let noNames ← Act.hasFlag 'f'
  let s ← get
  let found (f : Wildcard.Marked) : List Octets :=
    let plain := f.map Prod.fst
    if noNames || !Wildcard.isActive f then [plain]
    else match Wildcard.names s.tree s.locate f with
      | [] => [plain]
      | names => names
  return (split (← separators) m).flatMap found

end Expansion

end Graft.Shell
