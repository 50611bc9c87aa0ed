/-
The ground of a text that is read into an arena.

The tokens of a text stand one behind the other (`Tiled`), so that they make a ground: an edge is an offset that cuts
no token, and between two edges nothing matters when every token there is skipped.  The cursor that parsing starts
with stands on this ground.  `stretch` keeps the tokens that stand between two offsets; it falls apart at every edge, and
what the ground says of an edge, a blank or a token is said of the tokens in a stretch.

* `Ground.ahead_marks` — the marks of tiled tokens describe their ground;
* `laid_of_parseFile` — the layout and the ids of a file that was parsed;
* `Tiled.stretch_append` — a stretch up to an edge and the one from there on;
* `Tiled.stretch_around` — a stretch with a token in it;
* `Ground.isSkipped_of_blank` — in a blank every token is skipped.
-/
import Graft.Proofs.Reading.File
import Graft.Proofs.Text.Search

namespace Graft

/-! ### Tiles -/

/-- The tokens stand one behind the other from `x` on up to `y`. -/
def Tiled : Nat → List Token → Nat → Prop
  | x, [], y => x = y
  | x, t :: ts, y => t.start = x ∧ t.text ≠ [] ∧ Tiled t.stop ts y

namespace Tiled

variable {x y : Nat} {t t' : Token} {ts us : List Token}

theorem start_lt_stop_of_ne_nil (h : t.text ≠ []) : t.start < t.stop := by
  have := Text.size_pos_of_ne_nil h
  simp only [Token.stop]
  omega

theorem le (h : Tiled x ts y) : x ≤ y := by
  induction ts generalizing x with
  | nil => exact Nat.le_of_eq h
  | cons t ts ih =>
    obtain ⟨rfl, hne, hrest⟩ := h
    exact Nat.le_trans (Nat.le_of_lt (start_lt_stop_of_ne_nil hne)) (ih hrest)

theorem of_append (h : Tiled x (ts ++ us) y) : ∃ z, Tiled x ts z ∧ Tiled z us y := by
  induction ts generalizing x with
  | nil => exact ⟨x, rfl, h⟩
  | cons t ts ih =>
    obtain ⟨hx, hne, hrest⟩ := h
    obtain ⟨z, hts, hus⟩ := ih hrest
    exact ⟨z, ⟨hx, hne, hts⟩, hus⟩

theorem within (h : Tiled x ts y) (ht : t ∈ ts) : x ≤ t.start ∧ t.start < t.stop ∧ t.stop ≤ y := by
  induction ts generalizing x with
  | nil => cases ht
  | cons u ts ih =>
    obtain ⟨rfl, hne, hrest⟩ := h
    rcases List.mem_cons.1 ht with rfl | ht
    · exact ⟨Nat.le_refl _, start_lt_stop_of_ne_nil hne, hrest.le⟩
    · have := ih hrest ht
      have := start_lt_stop_of_ne_nil hne
      omega

/-- Two tokens are one, or one of them stands before the other. -/
theorem apart (h : Tiled x ts y) (ht : t ∈ ts) (ht' : t' ∈ ts) :
    t = t' ∨ t.stop ≤ t'.start ∨ t'.stop ≤ t.start := by
  induction ts generalizing x with
  | nil => cases ht
  | cons u ts ih =>
    obtain ⟨rfl, -, hrest⟩ := h
    rcases List.mem_cons.1 ht with rfl | hmem
    · rcases List.mem_cons.1 ht' with rfl | hmem'
      · exact .inl rfl
      · exact .inr (.inl (hrest.within hmem').1)
    · rcases List.mem_cons.1 ht' with rfl | hmem'
      · exact .inr (.inr (hrest.within hmem).1)
      · exact ih hrest hmem hmem'

theorem shift (h : Tiled x ts y) (n : Nat) : Tiled (x + n) (ts.map (·.shift n)) (y + n) := by
  induction ts generalizing x with
  | nil => exact congrArg (· + n) h
  | cons t ts ih =>
    obtain ⟨rfl, hne, hrest⟩ := h
    refine ⟨rfl, hne, ?_⟩
    rw [Token.stop_shift]
    exact ih hrest

theorem size_flatMap (h : Tiled x ts y) : x + Text.size (ts.flatMap Token.text) = y := by
  induction ts generalizing x with
  | nil => exact h
  | cons t ts ih =>
    obtain ⟨rfl, -, hrest⟩ := h
    have := ih hrest
    rw [List.flatMap_cons, Text.size_append]
    simp only [Token.stop] at this
    omega

/-- The tokens of a text are tiled. -/
theorem lex (s : Text) : Tiled 0 (Lexer.lex s) s.size := by
  have place : ∀ (ls : List Lexeme) (x : Nat), (∀ l ∈ ls, l.text ≠ []) →
      Tiled x (Lexer.place x ls) (x + Text.size (ls.flatMap Lexeme.text)) := by
    intro ls
    induction ls with
    | nil => exact fun x _ => rfl
    | cons l ls ih =>
      intro x h
      refine ⟨rfl, h l (by simp), ?_⟩
      rw [List.flatMap_cons, Text.size_append, ← Nat.add_assoc]
      exact ih _ fun m hm => h m (by simp [hm])
  have h := place (Lexer.lexemes s.length .html s) 0 (Lexer.text_ne_nil_of_mem_lexemes _ _ _)
  rwa [Lexer.flatten_lexemes _ _ _ (Nat.le_refl _), Nat.zero_add] at h

end Tiled

/-! ### The ground of tiles -/

/-- An offset from `x` to `y` that cuts no token. -/
def IsEdge (x y : Nat) (ts : List Token) (e : Nat) : Prop := x ≤ e ∧ e ≤ y ∧ ∀ t ∈ ts, t.stop ≤ e ∨ e ≤ t.start

namespace Tiled

variable {x y : Nat} {t : Token} {ts : List Token}

theorem isEdge_start (h : Tiled x ts y) (ht : t ∈ ts) : IsEdge x y ts t.start := by
  obtain ⟨h₁, h₂, h₃⟩ := h.within ht
  refine ⟨h₁, by omega, fun u hu => ?_⟩
  rcases h.apart hu ht with rfl | h' | h'
  · exact .inr (Nat.le_refl _)
  · exact .inl h'
  · exact .inr (by omega)

theorem isEdge_stop (h : Tiled x ts y) (ht : t ∈ ts) : IsEdge x y ts t.stop := by
  obtain ⟨h₁, h₂, h₃⟩ := h.within ht
  refine ⟨by omega, h₃, fun u hu => ?_⟩
  rcases h.apart hu ht with rfl | h' | h'
  · exact .inl (Nat.le_refl _)
  · exact .inl (by omega)
  · exact .inr h'

end Tiled

/-- Where no token is cut, no character is. -/
theorem Tiled.isCut {x y : Nat} {ts : List Token} (h : Tiled x ts y) {e : Nat} (he : IsEdge x y ts e) :
    Text.IsCut (ts.flatMap Token.text) (e - x) := by
  induction ts generalizing x with
  | nil =>
    obtain rfl : x = y := h
    have hx : e - x = 0 := by
      have := he.1
      have := he.2.1
      omega
    rw [hx]
    exact Text.isCut_zero _
  | cons t ts ih =>
    obtain ⟨rfl, hne, hrest⟩ := h
    rw [List.flatMap_cons]
    rcases he.2.2 t (by simp) with hle | hle
    · have h := (ih hrest ⟨hle, he.2.1, fun u hu => he.2.2 u (by simp [hu])⟩).append_left t.text
      have hsize : t.text.size + (e - t.stop) = e - t.start := by
        simp only [Token.stop] at hle ⊢
        omega
      rwa [hsize] at h
    · rw [Nat.sub_eq_zero_of_le hle]
      exact Text.isCut_zero _

/-- The ground of tokens that stand one behind the other from `x` on up to `y`. -/
def Ground.ofTiles {x y : Nat} {ts : List Token} (h : Tiled x ts y) : Ground where
  edge := IsEdge x y ts
  blank d e := IsEdge x y ts d ∧ IsEdge x y ts e ∧ d ≤ e ∧
    ∀ t ∈ ts, d ≤ t.start → t.stop ≤ e → t.kind.isSkipped = true
  token t := t ∈ ts ∧ t.kind.isSkipped = false
  blank_refl {e} he := by
    refine ⟨he, he, Nat.le_refl _, fun t ht h₁ h₂ => ?_⟩
    have := h.within ht
    omega
  blank_trans {d e f} hde hef := by
    refine ⟨hde.1, hef.2.1, Nat.le_trans hde.2.2.1 hef.2.2.1, fun t ht h₁ h₂ => ?_⟩
    rcases hef.1.2.2 t ht with h | h
    · exact hde.2.2.2 t ht h₁ h
    · exact hef.2.2.2 t ht h h₂
  edge_left hde := hde.1
  edge_right hde := hde.2.1
  le_of_blank hde := hde.2.2.1
  edge_start ht := h.isEdge_start ht.1
  edge_stop ht := h.isEdge_stop ht.1
  start_lt_stop ht := (h.within ht.1).2.1

namespace Ground

variable {x y : Nat} {ts : List Token} {h : Tiled x ts y}

/-- A skipped token is blank. -/
theorem blank_of_isSkipped {t : Token} (ht : t ∈ ts) (hk : t.kind.isSkipped = true) :
    (ofTiles h).blank t.start t.stop := by
  refine ⟨h.isEdge_start ht, h.isEdge_stop ht, Nat.le_of_lt (h.within ht).2.1, fun u hu hu₁ hu₂ => ?_⟩
  -- No other token fits in.
  have := h.within hu
  have := h.within ht
  rcases h.apart hu ht with rfl | h' | h'
  · exact hk
  · omega
  · omega

/-- The margin before the offset `d`, behind the edge `e`. -/
def Bounds (G : Ground) (e d : Nat) (m : Margin) : Prop :=
  G.blank e d ∧ ∀ l, m.lead = some l → G.blank e l ∧ G.blank l d

/-- The marks of tokens describe the ground from the edge behind which they stand. -/
theorem ahead_marks {us : List Token} {e d : Nat} {m : Margin} (hus : ∀ t ∈ us, t ∈ ts) (hd : Tiled d us y)
    (hm : (ofTiles h).Bounds e d m) : (ofTiles h).Ahead y e (marks m us) := by
  induction us generalizing d e m with
  | nil =>
    cases (show d = y from hd)
    exact hm.1
  | cons t us ih =>
    obtain ⟨rfl, hne, hrest⟩ := hd
    have ht := hus t (by simp)
    have hus' : ∀ t ∈ us, t ∈ ts := fun u hu => hus u (by simp [hu])
    simp only [marks]
    split
    · rename_i hk
      have hskip := blank_of_isSkipped (h := h) ht (by simp [TokenKind.isSkipped, hk])
      exact ih hus' hrest ⟨(ofTiles h).blank_trans hm.1 hskip, nofun⟩
    · split
      · rename_i hk
        have hskip := blank_of_isSkipped (h := h) ht (by simp [TokenKind.isSkipped, hk])
        refine ih hus' hrest ⟨(ofTiles h).blank_trans hm.1 hskip, fun l hl => ?_⟩
        -- The lead is the one from before, or it begins with this token.
        have hlead : m.lead = some l ∨ t.start = l := by
          unfold Margin.push at hl
          split at hl
          · exact .inl hl
          · split at hl
            · exact .inl hl
            · split at hl
              · exact .inr (Option.some.inj hl)
              · exact .inl hl
        rcases hlead with hl | rfl
        · obtain ⟨h₁, h₂⟩ := hm.2 l hl
          exact ⟨h₁, (ofTiles h).blank_trans h₂ hskip⟩
        · exact ⟨hm.1, hskip⟩
      · rename_i hopen htrivia
        have hk : t.kind.isSkipped = false := by simp [TokenKind.isSkipped, hopen, htrivia]
        have htok : (ofTiles h).token t := ⟨ht, hk⟩
        refine ⟨?_, ?_, htok, ih hus' hrest ⟨(ofTiles h).blank_refl ((ofTiles h).edge_stop htok), nofun⟩⟩
        · cases hl : m.lead with
          | none => simpa [hl] using hm.1
          | some l => simpa [hl] using (hm.2 l hl).1
        · cases hl : m.lead with
          | none => simpa [hl] using (ofTiles h).blank_refl ((ofTiles h).edge_start htok)
          | some l => simpa [hl] using (hm.2 l hl).2

end Ground

/-- Marks are the tokens that are not skipped. -/
theorem tokens_marks (m : Margin) (ts : List Token) : (marks m ts).map Mark.token = ts.filter (!·.kind.isSkipped) := by
  induction ts generalizing m with
  | nil => rfl
  | cons t ts ih =>
    rw [marks, List.filter_cons]
    by_cases hopen : t.kind = .openTag
    · simp [TokenKind.isSkipped, hopen, ih]
    · by_cases htrivia : t.kind.isTrivia = true
      · simp [TokenKind.isSkipped, hopen, htrivia, ih]
      · simp [TokenKind.isSkipped, hopen, htrivia, ih]

/-! ### Lexemes -/

/-- A token without its place. -/
def Token.lexeme (t : Token) : Lexeme := ⟨t.kind, t.text⟩

theorem Lexer.map_lexeme_place (x : Nat) (ls : List Lexeme) : (place x ls).map Token.lexeme = ls := by
  induction ls generalizing x with
  | nil => rfl
  | cons l ls ih => exact congrArg (l :: ·) (ih _)

/-! ### Parsed files -/

namespace Arena

variable {a a' : Arena} {t : Text}

/-- The tokens of a text that is appended to the arena. -/
def tokensOf (a : Arena) (t : Text) : List Token := (Lexer.lex t).map (·.shift a.text.size)

theorem tiled_tokensOf (a : Arena) (t : Text) :
    Tiled a.text.size (a.tokensOf t) (a.text.size + t.size) := by
  have h := (Tiled.lex t).shift a.text.size
  rwa [Nat.zero_add, Nat.add_comm t.size] at h

/-- The tokens of a text are its lexemes. -/
theorem map_lexeme_tokensOf (a : Arena) (t : Text) :
    (a.tokensOf t).map Token.lexeme = Lexer.lexemes t.length .html t := by
  rw [tokensOf, List.map_map]
  exact Lexer.map_lexeme_place 0 _

theorem flatMap_tokensOf (a : Arena) (t : Text) : (a.tokensOf t).flatMap Token.text = t := by
  calc (a.tokensOf t).flatMap Token.text
      = ((a.tokensOf t).map Token.lexeme).flatMap Lexeme.text := by rw [List.flatMap_map]; rfl
    _ = t := by rw [map_lexeme_tokensOf, Lexer.flatten_lexemes _ _ _ (Nat.le_refl _)]

/-- The ground of a text that is appended to the arena. -/
def ground (a : Arena) (t : Text) : Ground := .ofTiles (a.tiled_tokensOf t)

theorem isCut_of_edge {e : Nat} (he : (a.ground t).edge e) : Text.IsCut (a.push t).text e := by
  have h := ((a.tiled_tokensOf t).isCut he).append_left a.text
  rwa [flatMap_tokensOf, Nat.add_sub_cancel' he.1] at h

/-- The tokens that are parsed are those of the text. -/
theorem tokens_of_source (a : Arena) (t : Text) (n : Nat) :
    ((a.push t).tokens.take (a.nextSource t).stop).drop ((a.nextSource t).first + n) = (a.tokensOf t).drop n := by
  have hlen : (a.nextSource t).stop = (a.push t).tokens.length := by
    simp [tokens_push, nextSource]
  rw [hlen, List.take_length, tokens_push, nextSource, ← List.drop_drop, List.drop_left]
  rfl

theorem tokens_nextSource (a : Arena) (t : Text) :
    ((a.push t).tokens.take (a.nextSource t).stop).drop (a.nextSource t).first = a.tokensOf t := a.tokens_of_source t 0

theorem getElem?_tokens_of_source (a : Arena) (t : Text) (n : Nat) :
    (a.push t).tokens[(a.nextSource t).first + n]? = (a.tokensOf t)[n]? := by
  rw [tokens_push, nextSource, List.getElem?_append_right (Nat.le_add_right _ _), Nat.add_sub_cancel_left]
  rfl

/-- Where parsing starts: behind text outside of the code and an opening tag. -/
theorem exists_codeStart (a : Arena) (t : Text) : ∃ pre us z,
    a.tokensOf t = pre ++ us ∧ (∀ u ∈ pre, u.kind = .inlineHtml ∨ u.kind = .openTag) ∧
      Tiled z us (a.text.size + t.size) ∧ a.text.size ≤ z ∧
      (a.push t).codeStart (a.nextSource t) = ((a.nextSource t).first + pre.length, z) := by
  have htiled := a.tiled_tokensOf t
  have hstart : (a.nextSource t).span.start = a.text.size := rfl
  simp only [codeStart, a.tokens_nextSource, hstart]
  generalize hk : ((a.tokensOf t).takeWhile (·.kind == .inlineHtml)).length = k
  cases hu : (a.tokensOf t)[k]? with
  | none => exact ⟨[], _, _, rfl, nofun, htiled, Nat.le_refl _, rfl⟩
  | some u =>
    simp only
    split
    · rename_i htag
      obtain ⟨hlt, rfl⟩ := List.getElem?_eq_some_iff.1 hu
      have hsplit : a.tokensOf t = (a.tokensOf t).take k ++ (a.tokensOf t)[k] :: (a.tokensOf t).drop (k + 1) := by
        rw [← List.drop_eq_getElem_cons hlt, List.take_append_drop]
      obtain ⟨z, hpre, hz, hne, hus⟩ := Tiled.of_append (hsplit ▸ htiled)
      refine ⟨(a.tokensOf t).take k ++ [(a.tokensOf t)[k]], (a.tokensOf t).drop (k + 1), _, ?_, ?_, hus, ?_, ?_⟩
      · rw [List.append_assoc, List.singleton_append, ← hsplit]
      · have hhtml : (a.tokensOf t).take k = (a.tokensOf t).takeWhile (·.kind == .inlineHtml) := by
          rw [← hk, ← List.prefix_iff_eq_take.1 (List.takeWhile_prefix _)]
        rw [hhtml]
        refine List.forall_mem_append.2 ⟨fun u hu => .inl ?_, ?_⟩
        · exact beq_iff_eq.1 (List.all_eq_true.1 List.all_takeWhile u hu)
        · exact List.forall_mem_singleton.2 (.inr htag)
      · have := hpre.le
        have := Tiled.start_lt_stop_of_ne_nil hne
        omega
      · simp only [List.length_append, List.length_take, List.length_singleton, Nat.add_assoc,
          Nat.min_eq_left (Nat.le_of_lt hlt)]
    · exact ⟨[], _, _, rfl, nofun, htiled, Nat.le_refl _, rfl⟩

/-- The marks that parsing starts with: those behind an initial part of the tokens. -/
theorem ahead_ofTokens {pre us : List Token} (hsplit : a.tokensOf t = pre ++ us) :
    (Cursor.ofTokens (a.push t).tokens ((a.nextSource t).first + pre.length) (a.nextSource t).stop
      (a.nextSource t).span.stop).ahead = marks .afterTag us := by
  rw [Cursor.ofTokens, tokens_of_source, hsplit, List.drop_left]

/-- The cursor that parsing starts with stands on the ground of the text. -/
theorem exists_start (a : Arena) (t : Text) : ∃ start z,
    (a.push t).codeStart (a.nextSource t) = (start, z) ∧ a.text.size ≤ z ∧
      (Cursor.ofTokens (a.push t).tokens start (a.nextSource t).stop (a.nextSource t).span.stop).prevEnd = z ∧
      (a.ground t).On
        ⟨.ofTokens (a.push t).tokens start (a.nextSource t).stop (a.nextSource t).span.stop, (a.push t).nextId⟩ := by
  obtain ⟨pre, us, z, hsplit, -, hus, hz, hcode⟩ := a.exists_codeStart t
  refine ⟨_, z, hcode, hz, ?_⟩
  have hprev : (((a.push t).tokens[(a.nextSource t).first + pre.length]?).map Token.start).getD
      (a.nextSource t).span.stop = z := by
    rw [getElem?_tokens_of_source, hsplit, List.getElem?_append_right (Nat.le_refl _), Nat.sub_self]
    cases us with
    | nil => exact (show z = a.text.size + t.size from hus).symm
    | cons u us => exact hus.1
  refine ⟨hprev, ?_⟩
  unfold Ground.On
  rw [ahead_ofTokens hsplit]
  simp only [Cursor.ofTokens, hprev]
  have hedge : (a.ground t).edge z := by
    obtain ⟨z', hpre, hz'⟩ := Tiled.of_append (hsplit ▸ a.tiled_tokensOf t)
    have hmid : z' = z := by
      cases us with
      | nil => exact (show z' = _ from hz').trans (show z = _ from hus).symm
      | cons u us => exact hz'.1.symm.trans hus.1
    refine ⟨hz, hus.le, fun u hu => ?_⟩
    rw [hsplit] at hu
    rcases List.mem_append.1 hu with hu | hu
    · exact .inl (hmid ▸ (hpre.within hu).2.2)
    · exact .inr (hus.within hu).1
  refine Ground.ahead_marks (h := a.tiled_tokensOf t) (fun u hu => ?_) hus
    ⟨(a.ground t).blank_refl hedge, nofun⟩
  rw [hsplit]
  exact List.mem_append_right _ hu

/-- A file that was parsed is laid out on the text that was read, and its ids are new. -/
theorem laid_of_parseFile {f : File} (h : a.parseFile t = (.ok f, a')) :
    f.Laid (a.ground t) ∧ f.span = ⟨a.text.size, a.text.size + t.size⟩ ∧ Fresh a.nextId a'.nextId f.origins := by
  obtain ⟨start, z, hcode, hz, hprev, hon⟩ := a.exists_start t
  simp only [parseFile, parseSource] at h
  split at h
  · cases h
  · simp only [hcode] at h
    split at h
    · rename_i g st hrun
      cases h
      obtain ⟨hlaid, hspan, hfresh⟩ := Parser.yields_file hon hprev hz rfl _ _ hrun
      exact ⟨hlaid, hspan, hfresh.mono (Nat.le_refl _) (Nat.le_max_right _ _)⟩
    · cases h

end Arena

/-! ### Stretches -/

/-- The tokens that stand from `x` to `y`. -/
def stretch (ts : List Token) (x y : Nat) : List Token := ts.filter fun t => x ≤ t.start && t.stop ≤ y

theorem mem_stretch {ts : List Token} {x y : Nat} {t : Token} :
    t ∈ stretch ts x y ↔ t ∈ ts ∧ x ≤ t.start ∧ t.stop ≤ y := by
  simp [stretch]

namespace Tiled

variable {lo hi x y z : Nat} {t : Token} {ts : List Token}

/-- A stretch falls apart at every edge within it. -/
theorem stretch_append (h : Tiled lo ts hi) (hy : ∀ t ∈ ts, t.stop ≤ y ∨ y ≤ t.start) (hxy : x ≤ y) (hyz : y ≤ z) :
    stretch ts x z = stretch ts x y ++ stretch ts y z := by
  induction ts generalizing lo with
  | nil => rfl
  | cons t ts ih =>
    have hlt := (h.within List.mem_cons_self).2.1
    have ih := ih h.2.2 fun u hu => hy u (by simp [hu])
    rcases hy t List.mem_cons_self with hle | hle
    · have hz : t.stop ≤ z := Nat.le_trans hle hyz
      have hy' : ¬ y ≤ t.start := by omega
      simp only [stretch] at ih ⊢
      rw [List.filter_cons, List.filter_cons, List.filter_cons, ih]
      by_cases hx : x ≤ t.start <;> simp [hx, hz, hle, hy']
    · -- No token from here on ends before the edge.
      have hnone : stretch (t :: ts) x y = [] := by
        refine List.filter_eq_nil_iff.2 fun u hu => ?_
        have hle' : t.start ≤ u.start := h.1 ▸ (h.within hu).1
        have := (h.within hu).2.1
        simp only [Bool.and_eq_true, decide_eq_true_eq, not_and]
        omega
      rw [hnone, List.nil_append]
      refine List.filter_congr fun u hu => ?_
      have hle' : t.start ≤ u.start := h.1 ▸ (h.within hu).1
      simp [show x ≤ u.start by omega, show y ≤ u.start by omega]

/-- The stretch of one token is this token. -/
theorem stretch_token (h : Tiled lo ts hi) (ht : t ∈ ts) : stretch ts t.start t.stop = [t] := by
  induction ts generalizing lo with
  | nil => cases ht
  | cons u ts ih =>
    have hlt := (h.within List.mem_cons_self).2.1
    rcases List.mem_cons.1 ht with rfl | hmem
    · have hnone : stretch ts t.start t.stop = [] := by
        refine List.filter_eq_nil_iff.2 fun u hu => ?_
        have := h.2.2.within hu
        simp only [Bool.and_eq_true, decide_eq_true_eq, not_and]
        omega
      simp only [stretch] at hnone ⊢
      rw [List.filter_cons, hnone]
      simp
    · have hu := h.2.2.within hmem
      simp only [stretch] at ih ⊢
      rw [List.filter_cons, ih h.2.2 hmem]
      simp [show ¬ t.start ≤ u.start by omega]

/-- A stretch around a token. -/
theorem stretch_around (h : Tiled lo ts hi) (ht : t ∈ ts) (hx : x ≤ t.start) (hy : t.stop ≤ y) :
    stretch ts x y = stretch ts x t.start ++ t :: stretch ts t.stop y := by
  have hlt := (h.within ht).2.1
  calc stretch ts x y
      = stretch ts x t.start ++ stretch ts t.start y :=
        h.stretch_append (h.isEdge_start ht).2.2 hx (by omega)
    _ = stretch ts x t.start ++ (stretch ts t.start t.stop ++ stretch ts t.stop y) := by
        rw [← h.stretch_append (h.isEdge_stop ht).2.2 (Nat.le_of_lt hlt) hy]
    _ = stretch ts x t.start ++ t :: stretch ts t.stop y := by rw [h.stretch_token ht]; rfl

end Tiled

namespace Ground

variable {lo hi x y : Nat} {t : Token} {ts : List Token} {h : Tiled lo ts hi}

/-- An edge cuts no token. -/
theorem stop_le_or_le_start (hx : (ofTiles h).edge x) (ht : t ∈ ts) : t.stop ≤ x ∨ x ≤ t.start := hx.2.2 t ht

theorem isSkipped_of_blank (hxy : (ofTiles h).blank x y) : ∀ t ∈ stretch ts x y, t.kind.isSkipped = true := by
  intro t ht
  obtain ⟨hmem, hx, hy⟩ := mem_stretch.1 ht
  exact hxy.2.2.2 t hmem hx hy

/-- Two edges hold a token between them, or it stands outside. -/
theorem inside_or_outside (hx : (ofTiles h).edge x) (hy : (ofTiles h).edge y) (ht : t ∈ ts) :
    t.stop ≤ x ∨ t ∈ stretch ts x y ∨ y ≤ t.start := by
  rcases stop_le_or_le_start hx ht with hle | hle
  · exact .inl hle
  · rcases stop_le_or_le_start hy ht with hle' | hle'
    · exact .inr (.inl (mem_stretch.2 ⟨ht, hle, hle'⟩))
    · exact .inr (.inr hle')

end Ground

end Graft
