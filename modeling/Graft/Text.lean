/-
Text as a list of characters, addressed by byte offsets.

Source text is cut at offsets that count the bytes of its UTF-8 form, while the rules of the library speak about
characters.  `Text` is the list of characters, `Text.size` the number of bytes, and `Text.slice` the only way to go
from a pair of offsets to text: it answers the empty text for a pair that is out of range or cuts a character.

Main statements: `size_append`, `slice_append` (a slice between two parts of a concatenation is what stands
between them).
-/

/-! ### Texts and their sizes -/

namespace Graft

/-- A text is the list of its characters. -/
abbrev Text := List Char

namespace Text

/-- The number of bytes of the UTF-8 form. -/
def size : Text → Nat
  | [] => 0
  | c :: t => c.utf8Size + size t

@[simp] theorem size_nil : size [] = 0 := rfl

@[simp] theorem size_cons (c : Char) (t : Text) : size (c :: t) = c.utf8Size + size t := rfl

@[simp] theorem size_append (s t : Text) : size (s ++ t) = size s + size t := by
  induction s with
  | nil => simp
  | cons c s ih => simp [ih, Nat.add_assoc]

theorem size_pos_of_ne_nil {t : Text} (h : t ≠ []) : 0 < size t := by
  cases t with
  | nil => exact absurd rfl h
  | cons c t => have := Char.utf8Size_pos c; simp; omega

/-! ### Cutting at byte offsets -/

/-- What is left after the first `n` bytes; nothing when the text is shorter or `n` falls inside a character. -/
def drop? : Nat → Text → Option Text
  | 0, t => some t
  | _ + 1, [] => none
  | n + 1, c :: t => if c.utf8Size ≤ n + 1 then drop? (n + 1 - c.utf8Size) t else none

/-- The first `n` bytes; nothing when the text is shorter or `n` falls inside a character. -/
def take? : Nat → Text → Option Text
  | 0, _ => some []
  | _ + 1, [] => none
  | n + 1, c :: t => if c.utf8Size ≤ n + 1 then (take? (n + 1 - c.utf8Size) t).map (c :: ·) else none

/-- The text from byte `start` to byte `stop`, empty when these offsets do not delimit whole characters. -/
def slice (t : Text) (start stop : Nat) : Text :=
  if start ≤ stop then ((drop? start t).bind (take? (stop - start))).getD [] else []

theorem drop?_size_append (s t : Text) : drop? (size s) (s ++ t) = some t := by
  induction s with
  | nil => cases t <;> rfl
  | cons c s ih =>
    have hc := Char.utf8Size_pos c
    obtain ⟨n, hn⟩ : ∃ n, size (c :: s) = n + 1 := ⟨size (c :: s) - 1, by simp; omega⟩
    have hs : n + 1 - c.utf8Size = size s := by rw [← hn]; simp
    rw [hn]
    simp only [List.cons_append, drop?]
    rw [hs, ih, if_pos (by rw [← hn]; simp)]

theorem take?_size_append (s t : Text) : take? (size s) (s ++ t) = some s := by
  induction s with
  | nil => cases t <;> rfl
  | cons c s ih =>
    have hc := Char.utf8Size_pos c
    obtain ⟨n, hn⟩ : ∃ n, size (c :: s) = n + 1 := ⟨size (c :: s) - 1, by simp; omega⟩
    have hs : n + 1 - c.utf8Size = size s := by rw [← hn]; simp
    rw [hn]
    simp only [List.cons_append, take?]
    rw [hs, ih, if_pos (by rw [← hn]; simp)]
    rfl

/-- A slice between two parts of a concatenation is what stands between them. -/
theorem slice_append (a b c : Text) : slice (a ++ (b ++ c)) (size a) (size a + size b) = b := by
  unfold slice
  rw [if_pos (by omega), drop?_size_append]
  have : size a + size b - size a = size b := by omega
  rw [this, Option.bind_some, take?_size_append]
  rfl

/-! ### Searching -/

/-- What follows `p` when the text begins with it. -/
def strip? : Text → Text → Option Text
  | [], t => some t
  | _ :: _, [] => none
  | c :: p, d :: t => if c = d then strip? p t else none

/-- The text begins with `p`. -/
def startsWith (t p : Text) : Bool := (strip? p t).isSome

/-- The number of characters before the first occurrence of `p`. -/
def locate? (p : Text) : Text → Option Nat
  | [] => if p.isEmpty then some 0 else none
  | c :: t => if startsWith (c :: t) p then some 0 else (locate? p t).map (· + 1)

/-- Some part of the text is `p`. -/
def hasPart (t p : Text) : Bool := (locate? p t).isSome

/-- The text before and after the first `sep`. -/
def cut? (sep : Char) : Text → Option (Text × Text)
  | [] => none
  | c :: t => if c = sep then some ([], t) else (cut? sep t).map fun (a, b) => (c :: a, b)

/-- The parts between the occurrences of `sep`, one more than there are of them. -/
def splitOn (sep : Char) : Text → List Text
  | [] => [[]]
  | c :: t =>
    if c = sep then [] :: splitOn sep t
    else match splitOn sep t with
      | [] => [[c]]
      | p :: ps => (c :: p) :: ps

/-- The parts with `sep` between neighbours. -/
def join (sep : Text) : List Text → Text
  | [] => []
  | [p] => p
  | p :: q :: ps => p ++ sep ++ join sep (q :: ps)

/-- What stands after the last `sep`, if there is one. -/
def afterLast? (sep : Char) : Text → Option Text
  | [] => none
  | c :: t => (afterLast? sep t).or (if c = sep then some t else none)

/-- The text before the first line feed and the text from it on. -/
def firstLine (t : Text) : Text × Text := (t.takeWhile (· ≠ '\n'), t.dropWhile (· ≠ '\n'))

/-- The text without a last carriage return. -/
def stripCR (t : Text) : Text := if t.getLast? = some '\r' then t.dropLast else t

/-- Each occurrence of `p`, read from the left without overlap, becomes `by_`.  The empty `p` occurs before every
character and at the end. -/
def replace (p by_ : Text) (t : Text) : Text :=
  if p.isEmpty then by_ ++ t.flatMap (fun c => c :: by_) else go 0 t
where
  /-- Skips the characters of an occurrence that has been written, then looks for the next one. -/
  go : Nat → Text → Text
    | _, [] => []
    | k + 1, _ :: t => go k t
    | 0, c :: t => if startsWith (c :: t) p then by_ ++ go (p.length - 1) t else c :: go 0 t

/-! ### Letters -/

/-- The ASCII letters in lower case, all else unchanged. -/
def lower (t : Text) : Text := t.map Char.toLower

/-- Equal but for the case of ASCII letters. -/
def sameIgnoringCase (s t : Text) : Bool := lower s == lower t

/-- A blank that indents a line: a space or a tab. -/
def isIndent (c : Char) : Bool := c == ' ' || c == '\t'

/-- `n` in decimal. -/
def ofNat (n : Nat) : Text := (Nat.repr n).toList

/-- `n` in decimal with its sign. -/
def ofInt : Int → Text
  | .ofNat n => ofNat n
  | .negSucc n => '-' :: ofNat (n + 1)

/-- Lexicographic order of texts by code point, which is the byte order of their UTF-8 forms. -/
def le : Text → Text → Bool
  | [], _ => true
  | _ :: _, [] => false
  | c :: s, d :: t => if c = d then le s t else decide (c < d)

end Text

end Graft
