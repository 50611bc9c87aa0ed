/-
From text to tokens.

Text is HTML up to an opening tag and code from there to the next closing tag.  In code the longest match over the
token table makes the next lexeme; what matches nothing is an error lexeme.  Every lexeme is a non-empty piece cut
from the front of the text, so that the lexemes of a text put together are the text.

Main statements: `flatten_lexemes` (nothing is lost), `text_ne_nil_of_mem_lexemes`, `lex` (the lexemes with their
offsets).
-/
import Graft.Token.Heredoc

/-! ### Tags -/

namespace Graft

/-- A piece of text with its kind. -/
structure Lexeme where
  kind : TokenKind
  text : Text
deriving DecidableEq, Repr, Inhabited

namespace Lexer

open TokenTable

/-- The number of characters of the opening tag that the text begins with. -/
def openTag? : Text → Option Nat
  | '<' :: '?' :: '=' :: _ => some 3
  | '<' :: '?' :: p :: h :: q :: rest =>
    if Text.lower [p, h, q] = "php".toList ∧ rest.head?.all isSpace then some 5 else none
  | _ => none

/-- The text before the next opening tag. -/
def html : Text → Text
  | [] => []
  | c :: t => if (openTag? (c :: t)).isSome then [] else c :: html t

/-! ### Lexemes of code -/

/-- The longer of two matches, the first of two equally long ones. -/
def longer (a b : Option (TokenKind × Nat)) : Option (TokenKind × Nat) :=
  match a, b with
  | none, b => b
  | a, none => a
  | some (k, m), some (l, n) => if m < n then some (l, n) else some (k, m)

/-- The kind and the length of the longest match of a table. -/
def longestOf (table : List (TokenKind × Pattern)) (t : Text) : Option (TokenKind × Nat) :=
  table.foldr (fun (k, p) best => longer ((p.longest? t).map fun n => (k, n)) best) none

/-- The extent of a lexeme whose opener is in the table: comments and heredocs go on to their closing text and are
errors of the opener's length without one. -/
def extend (t : Text) : TokenKind × Nat → TokenKind × Nat
  | (.blockComment, n) => match BlockComment.extent? (t.drop n) with
    | some m => (.blockComment, n + m)
    | none => (.error, n)
  | (.heredoc, n) => match Heredoc.extent? (t.drop n) with
    | some m => (.heredoc, n + m)
    | none => (.error, n)
  | found => found

/-- The length of an error: a quote that is not closed takes all that its string could have held, any other
character stands alone. -/
def errorLength : Text → Nat
  | [] => 0
  | c :: t => if quotes.contains c then ((unclosed c).longest? (c :: t)).getD 1 else 1

/-- The kind and length of the lexeme at the front of a text of code. -/
def front (t : Text) : TokenKind × Nat :=
  match longestOf rules t with
  | some found => extend t found
  | none => (.error, errorLength t)

/-- The lexeme at the front of a text of code; it has at least one character. -/
def lexeme : Text → Lexeme
  | [] => ⟨.error, []⟩
  | c :: t => ⟨(front (c :: t)).1, c :: t.take ((front (c :: t)).2 - 1)⟩

/-! ### Lexemes of a text -/

/-- Where a text is being read: outside of the code or in it. -/
inductive Mode where
  | html
  | code
deriving DecidableEq, Repr

/-- Cuts one lexeme off the front of a non-empty text. -/
def next : Mode → Text → Lexeme × Mode
  | .html, t => match openTag? t with
    | some n => (⟨.openTag, t.take n⟩, .code)
    | none => (⟨.inlineHtml, html t⟩, .html)
  | .code, t =>
    let l := lexeme t
    (l, if l.kind = .closeTag then .html else .code)

/-- The lexemes of a text, at most as many as the budget. -/
def lexemes : Nat → Mode → Text → List Lexeme
  | 0, _, _ => []
  | _ + 1, _, [] => []
  | n + 1, mode, c :: t =>
    let (l, mode') := next mode (c :: t)
    l :: lexemes n mode' ((c :: t).drop l.text.length)

theorem openTag?_pos {t : Text} {n : Nat} (h : openTag? t = some n) : 0 < n ∧ n ≤ t.length := by
  unfold openTag? at h
  split at h
  · simp at h; subst h; simp
  · split at h <;> simp at h
    subst h; simp
  · simp at h

theorem html_ne_nil {t : Text} (h : openTag? t = none) (hne : t ≠ []) : html t ≠ [] := by
  cases t with
  | nil => exact absurd rfl hne
  | cons c t => simp [html, h]

theorem html_append_drop (t : Text) : html t ++ t.drop (html t).length = t := by
  induction t with
  | nil => simp [html]
  | cons c t ih =>
    simp only [html]
    split
    · simp
    · simpa using ih

/-- A lexeme is a non-empty piece from the front of the text. -/
theorem next_text (mode : Mode) {t : Text} (hne : t ≠ []) :
    (next mode t).1.text ≠ [] ∧ (next mode t).1.text ++ t.drop (next mode t).1.text.length = t := by
  cases mode with
  | html =>
    simp only [next]
    split
    · rename_i n hn
      have := openTag?_pos hn
      refine ⟨?_, ?_⟩
      · intro h
        have : n = 0 ∨ t = [] := by simpa using h
        rcases this with h | h
        · omega
        · exact hne h
      · have : min n t.length = n := by omega
        simp [this, List.take_append_drop]
    · rename_i hn
      exact ⟨html_ne_nil hn hne, html_append_drop t⟩
  | code =>
    cases t with
    | nil => exact absurd rfl hne
    | cons c t =>
      simp only [next, lexeme]
      refine ⟨by simp, ?_⟩
      generalize (front (c :: t)).2 - 1 = n
      simp only [List.length_cons, List.length_take, List.drop_succ_cons, List.cons_append, List.cons.injEq,
        true_and]
      rcases Nat.le_total n t.length with h | h
      · rw [Nat.min_eq_left h, List.take_append_drop]
      · rw [Nat.min_eq_right h, List.take_of_length_le h, List.drop_length, List.append_nil]

/-- The lexemes of a text put together are the text. -/
theorem flatten_lexemes (n : Nat) (mode : Mode) (t : Text) (h : t.length ≤ n) :
    (lexemes n mode t).flatMap Lexeme.text = t := by
  induction n generalizing mode t with
  | zero =>
    have : t = [] := List.eq_nil_of_length_eq_zero (by omega)
    simp [lexemes, this]
  | succ n ih =>
    cases t with
    | nil => simp [lexemes]
    | cons c t =>
      have hnext := next_text mode (t := c :: t) (by simp)
      simp only [lexemes, List.flatMap_cons]
      rw [ih, hnext.2]
      have := List.length_pos_iff.2 hnext.1
      simp only [List.length_drop, List.length_cons] at *
      omega

/-- No lexeme is empty. -/
theorem text_ne_nil_of_mem_lexemes (n : Nat) (mode : Mode) (t : Text) :
    ∀ l ∈ lexemes n mode t, l.text ≠ [] := by
  induction n generalizing mode t with
  | zero => simp [lexemes]
  | succ n ih =>
    cases t with
    | nil => simp [lexemes]
    | cons c t =>
      intro l hl
      simp only [lexemes, List.mem_cons] at hl
      rcases hl with rfl | hl
      · exact (next_text mode (by simp)).1
      · exact ih _ _ l hl

/-! ### Tokens -/

/-- Gives each lexeme the offset where it starts. -/
def place (start : Nat) : List Lexeme → List Token
  | [] => []
  | l :: ls => ⟨l.kind, start, l.text⟩ :: place (start + l.text.size) ls

/-- The tokens of a text, with offsets from its start. -/
def lex (t : Text) : List Token := place 0 (lexemes t.length .html t)

end Lexer

end Graft
