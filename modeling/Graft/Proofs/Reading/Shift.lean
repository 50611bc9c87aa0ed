/-
Parsing does not depend on where a text stands.

A text that is read behind other texts gives the tree that it gives on its own, moved: its spans by the size of the
text before it, its ids by the number of ids drawn before it.  A text that is not parsed fails with the same error in
both places, and as many ids are drawn.

* `codeStart_shift`, `states_shift` — the parser starts alike in both places;
* `parseFile_shift` — it ends alike.
-/
import Graft.Proofs.Reading.Places

namespace Graft

/-! ### Moving trees -/

/-- Ids are raised by `ids` and spans moved by `size`. -/
def Relocation.shift (ids size : Nat) : Relocation := ⟨(· + ids), (·.shift size)⟩

/-- The error points behind `size` more bytes. -/
def ParseError.shift (e : ParseError) (size : Nat) : ParseError := ⟨e.kind, e.span.shift size⟩

/-- The transport of a text that is read behind `size` more bytes and `ids` more ids. -/
def Transport.shift (ids size : Nat) : Transport where
  map := .shift ids size
  offset x := x + size
  Seen _ := True
  Spot _ := True
  base := 0
  span_eq _ _ := rfl
  id_succ {i} _ := Nat.add_right_comm i 1 ids

/-- A file is the same in both places when its extent and that of its code are. -/
theorem Parser.tracks_file_relocate {T : Transport} {s s' : Span} {x x' : Nat} (hspan : s' = T.map.span s)
    (hbody : (⟨x', s'.stop⟩ : Span) = T.map.span ⟨x, s.stop⟩) :
    Tracks T (fun f g => g = f.relocate T.map) (file s x) (file s' x') := by
  refine Tracks.fresh.bind fun i j hij => (sends_topStmt.manyUntil .atEnd).bind ?_
  rintro stmts _ rfl
  refine .pure ?_
  rw [File.relocate, hij, hbody, hspan]
  rfl

namespace Arena

variable (a : Arena) (t : Text)

/-! ### Where parsing starts -/

/-- The tokens of a text are those of the text on its own, moved. -/
theorem tokensOf_eq_map : a.tokensOf t = (empty.tokensOf t).map (·.shift a.text.size) :=
  tokensOf_shift t (Nat.zero_add _).symm

/-- The code starts behind as many tokens and bytes of the text. -/
theorem codeStart_shift {t : Text} {n z : Nat} (h : (empty.push t).codeStart (empty.nextSource t) = (n, z)) :
    (a.push t).codeStart (a.nextSource t) = ((a.nextSource t).first + n, z + a.text.size) := by
  have hempty : (empty.nextSource t).first = 0 ∧ (empty.nextSource t).span.start = 0 := ⟨rfl, rfl⟩
  have hstart : (a.nextSource t).span.start = a.text.size := rfl
  have hkind : (fun u : Token => u.kind == .inlineHtml) ∘ (fun u : Token => u.shift a.text.size) =
      fun u => u.kind == .inlineHtml := rfl
  simp only [codeStart, tokens_nextSource] at h
  simp only [hempty.1, hempty.2, Nat.zero_add] at h
  simp only [codeStart, tokens_nextSource, a.tokensOf_eq_map t, hstart, List.takeWhile_map, hkind, List.length_map,
    List.getElem?_map]
  generalize empty.tokensOf t = ts at h ⊢
  cases hu : ts[(ts.takeWhile fun u => u.kind == .inlineHtml).length]? with
  | none =>
    rw [hu] at h
    cases h
    simp only [Option.map_none, Nat.add_zero, Nat.zero_add]
  | some u =>
    rw [hu] at h
    have hshift : (u.shift a.text.size).kind = u.kind := rfl
    simp only [Option.map_some, hshift, Token.stop_shift] at h ⊢
    split at h
    · rename_i htag
      cases h
      rw [if_pos htag, Nat.add_assoc]
    · rename_i htag
      cases h
      rw [if_neg htag, Nat.add_zero, Nat.zero_add]

/-- The state that the parser starts from behind `n` tokens of the text. -/
def startState (n : Nat) : ParseState :=
  ⟨.ofTokens (a.push t).tokens ((a.nextSource t).first + n) (a.nextSource t).stop (a.nextSource t).span.stop, a.nextId⟩

theorem ahead_startState (n : Nat) : (a.startState t n).cursor.ahead = marks .afterTag ((a.tokensOf t).drop n) :=
  congrArg (marks .afterTag) (a.tokens_of_source t n)

/-- What parsing a text does whose code starts behind `n` tokens and `z` bytes. -/
theorem parseFile_eq {t : Text} {n z : Nat} (h : (empty.push t).codeStart (empty.nextSource t) = (n, z)) :
    a.parseFile t =
      match (a.tokensOf t).find? (·.kind == .error) with
      | some bad => (.error ⟨.invalidToken, bad.span⟩, a.push t)
      | none =>
        match (Parser.file (a.nextSource t).span (z + a.text.size)).run (a.startState t n) with
        | .ok f st => (.ok f, (a.push t).reserve st.nextId)
        | .error e st => (.error e, (a.push t).reserve st.nextId) := by
  rw [parseFile, parseSource, tokens_nextSource]
  cases (a.tokensOf t).find? (·.kind == .error) with
  | some bad => rfl
  | none =>
    simp only [a.codeStart_shift h]
    rfl

end Arena

end Graft
