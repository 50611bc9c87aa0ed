/-
Half-open ranges of byte offsets.

A span `start..stop` delimits text of the arena.  Nodes built by an edit carry `Span.dummy`, whose text nobody reads.
-/

/-! ### Spans -/

namespace Graft

/-- The bytes from `start` up to but not including `stop`. -/
structure Span where
  start : Nat
  stop : Nat
deriving DecidableEq, Repr, Inhabited

namespace Span

/-- The span of nodes that were not read from text. -/
def dummy : Span := ⟨0, 0⟩

def size (s : Span) : Nat := s.stop - s.start

def isEmpty (s : Span) : Bool := s.start == s.stop

def contains (s : Span) (offset : Nat) : Bool := s.start ≤ offset && offset < s.stop

def covers (s t : Span) : Bool := s.start ≤ t.start && t.stop ≤ s.stop

/-- The smallest span that covers both. -/
def merge (s t : Span) : Span := ⟨min s.start t.start, max s.stop t.stop⟩

/-- The empty span at `offset`, which marks a place to insert at. -/
def point (offset : Nat) : Span := ⟨offset, offset⟩

def shift (s : Span) (by_ : Nat) : Span := ⟨s.start + by_, s.stop + by_⟩

/-- A span as `start..stop`. -/
def toText (s : Span) : String := Nat.repr s.start ++ ".." ++ Nat.repr s.stop

/-! ### Bounded offsets -/

/-- Offsets are at most this. -/
def maxOffset : Nat := 4294967295

/-- Which end of a range is beyond `maxOffset`. -/
inductive RangeError where
  | startTooLarge (offset : Nat)
  | endTooLarge (offset : Nat)
deriving DecidableEq, Repr

/-- `n` in upper-case hexadecimal. -/
def hexUpper (n : Nat) : String := String.ofList ((Nat.toDigits 16 n).map Char.toUpper)

def RangeError.message : RangeError → String
  | .startTooLarge n => "span start " ++ describe n
  | .endTooLarge n => "span end " ++ describe n
where
  describe (n : Nat) : String :=
    Nat.repr n ++ " (0x" ++ hexUpper n ++ ") exceeds u32::MAX (0x" ++ hexUpper maxOffset ++ ")"

/-- The span of a range whose ends are small enough; the start is checked first. -/
def ofRange (start stop : Nat) : Except RangeError Span :=
  if maxOffset < start then .error (.startTooLarge start)
  else if maxOffset < stop then .error (.endTooLarge stop)
  else .ok ⟨start, stop⟩

end Span

end Graft
