/-
The passages of a source between two edges.

The tokens of a text fall apart at every edge, and so does the text.  So what stands between two edges is a passage of
the text, read from the mode that the code before it leaves; before code this is the mode of code.

* `Tiled.stretch` — the tokens between two edges are tiled;
* `Arena.reads_around` — a source in three passages;
* `Arena.significant` — the tokens between two offsets that are no trivia.
-/
import Graft.Proofs.Reading.Layout
import Graft.Proofs.Reading.Source
import Graft.Proofs.Token.Passage

namespace Graft

/-! ### Tiles between edges -/

namespace Tiled

variable {lo hi x y : Nat} {ts : List Token}

/-- The tokens between two edges are tiled. -/
theorem stretch (h : Tiled lo ts hi) (hx : IsEdge lo hi ts x) (hy : IsEdge lo hi ts y) (hxy : x ≤ y) :
    Tiled x (stretch ts x y) y := by
  induction ts generalizing lo x with
  | nil =>
    obtain rfl : lo = hi := h
    show x = y
    have := hx.1
    have := hy.2.1
    omega
  | cons t ts ih =>
    obtain ⟨rfl, hne, hrest⟩ := h
    have hlt := start_lt_stop_of_ne_nil hne
    have hedge : ∀ {e}, IsEdge t.start hi (t :: ts) e → t.stop ≤ e → IsEdge t.stop hi ts e := fun he hle =>
      ⟨hle, he.2.1, fun u hu => he.2.2 u (List.mem_cons_of_mem t hu)⟩
    rcases hx.2.2 t List.mem_cons_self with hle | hle
    · have hnot : ¬ x ≤ t.start := by omega
      rw [Graft.stretch, List.filter_cons_of_neg (by simp [hnot])]
      exact ih hrest (hedge hx hle) (hedge hy (Nat.le_trans hle hxy)) hxy
    · obtain rfl : x = t.start := Nat.le_antisymm hle hx.1
      rcases hy.2.2 t List.mem_cons_self with hstop | hstop
      · rw [Graft.stretch, List.filter_cons_of_pos (by simp [hstop])]
        refine ⟨rfl, hne, ?_⟩
        have hsame : ts.filter (fun u => t.start ≤ u.start && u.stop ≤ y) = Graft.stretch ts t.stop y := by
          refine List.filter_congr fun u hu => ?_
          have hu := (hrest.within hu).1
          simp [hu, show t.start ≤ u.start by omega]
        rw [hsame]
        exact ih hrest ⟨Nat.le_refl _, hrest.le, fun u hu => .inr (hrest.within hu).1⟩ (hedge hy hstop) hstop
      · obtain rfl : y = t.start := Nat.le_antisymm hstop hxy
        -- No token fits between an edge and itself.
        have hnil : Graft.stretch (t :: ts) t.start t.start = [] := by
          refine List.filter_eq_nil_iff.2 fun u hu => ?_
          have hlt : u.start < u.stop := by
            rcases List.mem_cons.1 hu with rfl | hu
            · exact hlt
            · exact (hrest.within hu).2.1
          simp only [Bool.and_eq_true, decide_eq_true_eq, not_and]
          omega
        rw [hnil]
        rfl

/-- The token that ends with all of them is the last one. -/
theorem getLast?_of_stop {t : Token} (h : Tiled lo ts hi) (ht : t ∈ ts) (hstop : t.stop = hi) : ts.getLast? = some t := by
  obtain ⟨u, hu⟩ : ∃ u, ts.getLast? = some u := by
    cases hlast : ts.getLast? with
    | none =>
      rw [List.getLast?_eq_none_iff.1 hlast] at ht
      cases ht
    | some u => exact ⟨u, rfl⟩
  have hmem := List.mem_of_getLast? hu
  have hend := h.stop_getLast? hu
  have hlt := (h.within ht).2.1
  have hlt' := (h.within hmem).2.1
  rcases h.apart ht hmem with rfl | hle | hle
  · exact hu
  · omega
  · omega

end Tiled

namespace Arena

variable {a : Arena} {t : Text} {x y : Nat}

/-- The lexemes of the text between two offsets. -/
def lexemesFrom (a : Arena) (t : Text) (x y : Nat) : List Lexeme := (stretch (a.tokensOf t) x y).map Token.lexeme

theorem lexemesFrom_append {z : Nat} (hy : (a.ground t).edge y) (hxy : x ≤ y) (hyz : y ≤ z) :
    a.lexemesFrom t x z = a.lexemesFrom t x y ++ a.lexemesFrom t y z := by
  rw [lexemesFrom, (a.tiled_tokensOf t).stretch_append hy.2.2 hxy hyz, List.map_append]
  rfl

/-- The ends of a text are edges. -/
theorem edge_start (a : Arena) (t : Text) : (a.ground t).edge a.text.size :=
  ⟨Nat.le_refl _, (a.tiled_tokensOf t).le, fun _ hu => .inr ((a.tiled_tokensOf t).within hu).1⟩

theorem edge_stop (a : Arena) (t : Text) : (a.ground t).edge (a.text.size + t.size) :=
  ⟨(a.tiled_tokensOf t).le, Nat.le_refl _, fun _ hu => .inl ((a.tiled_tokensOf t).within hu).2.2⟩

theorem lexemesFrom_whole (a : Arena) (t : Text) :
    a.lexemesFrom t a.text.size (a.text.size + t.size) = Lexer.lexemesOf .html t := by
  have hall : stretch (a.tokensOf t) a.text.size (a.text.size + t.size) = a.tokensOf t := by
    refine List.filter_eq_self.2 fun u hu => ?_
    have hu := (a.tiled_tokensOf t).within hu
    simp [hu.1, hu.2.2]
  rw [lexemesFrom, hall, map_lexeme_tokensOf]
  rfl

/-- A text around a part of it that stands between two edges. -/
theorem lexemesFrom_around (hx : (a.ground t).edge x) (hy : (a.ground t).edge y) (hxy : x ≤ y) :
    Lexer.lexemesOf .html t =
      a.lexemesFrom t a.text.size x ++ (a.lexemesFrom t x y ++ a.lexemesFrom t y (a.text.size + t.size)) := by
  rw [← lexemesFrom_append hy hxy hy.2.1, ← lexemesFrom_append hx hx.1 (Nat.le_trans hxy hy.2.1), lexemesFrom_whole]

theorem size_lexemesFrom (hx : (a.ground t).edge x) (hy : (a.ground t).edge y) (hxy : x ≤ y) :
    x + Text.size ((a.lexemesFrom t x y).flatMap Lexeme.text) = y := by
  rw [lexemesFrom, List.flatMap_map]
  exact ((a.tiled_tokensOf t).stretch hx hy hxy).size_flatMap

/-- The text between two edges is that of the lexemes between them. -/
theorem flatMap_lexemesFrom (hx : (a.ground t).edge x) (hy : (a.ground t).edge y) (hxy : x ≤ y) :
    (a.lexemesFrom t x y).flatMap Lexeme.text = (a.push t).text.slice x y := by
  have htext : t = (a.lexemesFrom t a.text.size x).flatMap Lexeme.text ++ ((a.lexemesFrom t x y).flatMap Lexeme.text ++
      (a.lexemesFrom t y (a.text.size + t.size)).flatMap Lexeme.text) := by
    rw [← List.flatMap_append, ← List.flatMap_append, ← lexemesFrom_around hx hy hxy]
    exact (Lexer.flatten_lexemes _ _ _ (Nat.le_refl _)).symm
  have hbefore := size_lexemesFrom (a.edge_start t) hx hx.1
  have hbetween := size_lexemesFrom hx hy hxy
  rw [text_push]
  generalize (a.lexemesFrom t a.text.size x).flatMap Lexeme.text = before at htext hbefore
  generalize (a.lexemesFrom t x y).flatMap Lexeme.text = between at htext hbetween ⊢
  rw [htext, ← List.append_assoc, ← hbetween, ← hbefore, ← Text.size_append, Text.slice_append]

/-- The last lexeme up to the end of a token. -/
theorem getLast?_lexemesFrom {u : Token} (hx : (a.ground t).edge x) (hu : u ∈ a.tokensOf t) (hxu : x ≤ u.start) :
    (a.lexemesFrom t x u.stop).getLast? = some u.lexeme := by
  have htiled := a.tiled_tokensOf t
  have hwithin := htiled.within hu
  have hle : x ≤ u.stop := Nat.le_trans hxu (Nat.le_of_lt hwithin.2.1)
  have hlast := (htiled.stretch hx (htiled.isEdge_stop hu) hle).getLast?_of_stop
    (mem_stretch.2 ⟨hu, hxu, Nat.le_refl _⟩) rfl
  rw [lexemesFrom, List.getLast?_map, hlast]
  rfl

/-- A text falls into three passages at two edges. -/
theorem reads_around (hx : (a.ground t).edge x) (hy : (a.ground t).edge y) (hxy : x ≤ y) : ∃ m m' m'',
    Lexer.Reads .html ((a.push t).text.slice a.text.size x) ((a.push t).text.slice x (a.text.size + t.size))
      (a.lexemesFrom t a.text.size x) m ∧
    Lexer.Reads m ((a.push t).text.slice x y) ((a.push t).text.slice y (a.text.size + t.size))
      (a.lexemesFrom t x y) m' ∧
    Lexer.Reads m' ((a.push t).text.slice y (a.text.size + t.size)) [] (a.lexemesFrom t y (a.text.size + t.size)) m'' := by
  have hstop := a.edge_stop t
  obtain ⟨m'', hwhole⟩ := Lexer.Reads.whole .html t
  rw [lexemesFrom_around hx hy hxy] at hwhole
  obtain ⟨m, hbefore, hrest⟩ := hwhole.of_append
  obtain ⟨m', hbetween, hbehind⟩ := hrest.of_append
  simp only [List.append_nil, List.flatMap_append, flatMap_lexemesFrom (a.edge_start t) hx hx.1,
    flatMap_lexemesFrom hx hy hxy, flatMap_lexemesFrom hy hstop hy.2.1] at hbefore hbetween hbehind
  refine ⟨m, m', m'', ?_, hbetween, hbehind⟩
  rwa [Text.slice_append_slice (isCut_of_edge hx) (isCut_of_edge hy) (isCut_of_edge hstop) hxy hy.2.1] at hbefore

/-! ### Tokens of an arena -/

/-- The kinds and texts of the tokens from `x` to `y` that are no trivia. -/
def significant (a : Arena) (x y : Nat) : List Lexeme :=
  ((stretch a.tokens x y).filter (!·.kind.isTrivia)).map Token.lexeme

theorem tokens_parseFile (a : Arena) (t : Text) : (a.parseFile t).2.tokens = a.tokens ++ a.tokensOf t := by
  unfold parseFile parseSource
  split
  · rfl
  · simp only
    split <;> rfl

/-- Texts of which a file was read have no invalid tokens. -/
theorem ne_error_of_parseFile {f : File} {b : Arena} (h : a.parseFile t = (.ok f, b)) :
    ∀ l ∈ a.lexemesFrom t x y, l.kind ≠ .error := by
  simp only [parseFile, parseSource, a.tokens_nextSource] at h
  split at h
  · cases h
  · rename_i hfind
    intro l hl herror
    obtain ⟨u, hu, rfl⟩ := List.mem_map.1 hl
    have herror : u.kind = .error := herror
    exact List.find?_eq_none.1 hfind u (mem_stretch.1 hu).1 (by simp [herror])

/-- In the text that was read last, an arena has the tokens of the text. -/
theorem stretch_tokens {b : Arena} (hb : b.tokens = a.tokens ++ a.tokensOf t) (hx : ∀ u ∈ a.tokens, u.start < x) :
    stretch b.tokens x y = stretch (a.tokensOf t) x y := by
  have hnone : stretch a.tokens x y = [] := by
    refine List.filter_eq_nil_iff.2 fun u hu => ?_
    simp [Nat.not_le.2 (hx u hu)]
  rw [hb]
  simp only [stretch] at hnone ⊢
  rw [List.filter_append, hnone, List.nil_append]

theorem significant_eq {b : Arena} (hb : b.tokens = a.tokens ++ a.tokensOf t) (hx : ∀ u ∈ a.tokens, u.start < x) :
    b.significant x y = (a.lexemesFrom t x y).filter (!·.kind.isTrivia) := by
  rw [significant, stretch_tokens hb hx, lexemesFrom, List.filter_map]
  rfl

end Arena

end Graft
