/-
Values that are written and read back.

The text of an expression that was read is a passage of code, and the lexemes of that passage are its tokens.  So where
the text is a literal that was written for a value, the expression is what the literal stands for: it holds the value,
and it holds no other one.  This is so for the entries of all arrays of a file, at any depth.

* `File.Laid.value` — in a laid file the value of every entry is laid;
* `Ground.Row.filter_stretch` — the tokens of a row are those between its ends that are not skipped;
* `Arena.exists_reads_expr` — the passage of an expression;
* `Spelling.isHeldBy_iff` — the value that the tokens of a literal stand for;
* `Ground.Tells.isHeldBy_iff` — the values of entries that were written as literals.
-/
import Graft.Proofs.Reading.Layout
import Graft.Proofs.Reading.Passage
import Graft.Proofs.Reading.Source
import Graft.Proofs.Token.Literal

namespace Graft

/-! ### Entries -/

mutual

/-- The entries in an expression. -/
def Expr.entries : Expr → List (ArrayItem Expr)
  | .array a => ArrayLit.entries a
  | .string _ | .int _ | .float _ | .const _ | .other _ => []
termination_by structural e => e

/-- The entries in an array. -/
def ArrayLit.entries : ArrayLit Expr → List (ArrayItem Expr)
  | ⟨_, _, _, _, items⟩ => ArrayItem.entriesAll items
termination_by structural e => e

/-- The given entries and those in them. -/
def ArrayItem.entriesAll : List (ArrayItem Expr) → List (ArrayItem Expr)
  | [] => []
  | i :: is => i :: (ArrayItem.entries i ++ ArrayItem.entriesAll is)
termination_by structural e => e

/-- The entries in the parts of an entry. -/
def ArrayItem.entries : ArrayItem Expr → List (ArrayItem Expr)
  | ⟨_, _, key, value, _, _⟩ => Expr.entriesOption key ++ Expr.entries value
termination_by structural e => e

/-- The entries in an expression that may be absent. -/
def Expr.entriesOption : Option Expr → List (ArrayItem Expr)
  | none => []
  | some e => Expr.entries e
termination_by structural e => e

end

theorem Expr.entries_array (a : ArrayLit Expr) : (Expr.array a).entries = ArrayItem.entriesAll a.items := by
  cases a
  rfl

theorem ArrayItem.mem_entriesAll {i : ArrayItem Expr} {is : List (ArrayItem Expr)} (h : i ∈ is) :
    i ∈ ArrayItem.entriesAll is := by
  induction is with
  | nil => cases h
  | cons j is ih =>
    rw [entriesAll, List.mem_cons, List.mem_append]
    exact (List.mem_cons.1 h).imp_right fun h => .inr (ih h)

def ReturnStmt.entries (r : ReturnStmt) : List (ArrayItem Expr) := Expr.entriesOption r.expr

def BodyStmt.entries : BodyStmt → List (ArrayItem Expr)
  | .ret r => r.entries
  | .other _ => []

def Method.entries (m : Method) : List (ArrayItem Expr) := ((m.body.map Block.stmts).getD []).flatMap BodyStmt.entries

def Property.entries (p : Property) : List (ArrayItem Expr) := p.items.flatMap fun i => Expr.entriesOption i.default

def Member.entries : Member → List (ArrayItem Expr)
  | .property p => p.entries
  | .method m => m.entries
  | .traitUse _ | .other _ => []

def Stmt.entries : Stmt → List (ArrayItem Expr)
  | .classLike c => c.members.flatMap Member.entries
  | .ret r => r.entries
  | .imports _ | .declare _ | .other _ => []

def TopStmt.entries : TopStmt → List (ArrayItem Expr)
  | .inside n => n.stmts.flatMap Stmt.entries
  | .plain s => s.entries

/-- The entries of all arrays of a file. -/
def File.entries (f : File) : List (ArrayItem Expr) := f.stmts.flatMap TopStmt.entries

/-! ### Layout -/

variable {G : Ground}

theorem ArrayItem.laid_value (i : ArrayItem Expr) (h : i.Laid G) : i.value.Laid G := by
  cases i
  exact h.2.2

mutual

theorem Expr.Arranged.value : ∀ e : Expr, e.Arranged G → ∀ i ∈ e.entries, i.value.Laid G
  | .array a, h => by
    unfold Expr.Arranged at h
    exact ArrayLit.Laid.value a h
  | .string _, _ => by simp [Expr.entries]
  | .int _, _ => by simp [Expr.entries]
  | .float _, _ => by simp [Expr.entries]
  | .const _, _ => by simp [Expr.entries]
  | .other _, _ => by simp [Expr.entries]

theorem ArrayLit.Laid.value : ∀ a : ArrayLit Expr, ArrayLit.Laid G a → ∀ i ∈ a.entries, i.value.Laid G
  | ⟨_, _, _, _, items⟩, h => ArrayItem.LaidAll.value items h.2.2

theorem ArrayItem.LaidAll.value : ∀ is : List (ArrayItem Expr), ArrayItem.LaidAll G is →
    ∀ i ∈ ArrayItem.entriesAll is, i.value.Laid G
  | [], _ => by simp [ArrayItem.entriesAll]
  | i :: is, h => by
    unfold ArrayItem.entriesAll
    refine List.forall_mem_cons.2 ⟨i.laid_value h.1, List.forall_mem_append.2 ⟨?_, ?_⟩⟩
    · exact ArrayItem.Laid.value i h.1
    · exact ArrayItem.LaidAll.value is h.2

theorem ArrayItem.Laid.value : ∀ i : ArrayItem Expr, i.Laid G → ∀ j ∈ i.entries, j.value.Laid G
  | ⟨_, _, none, value, _, _⟩, h => by
    simpa [ArrayItem.entries, Expr.entriesOption] using Expr.Arranged.value value h.2.2.2
  | ⟨_, _, some key, value, _, _⟩, h => by
    unfold ArrayItem.entries
    exact List.forall_mem_append.2 ⟨Expr.Arranged.value key h.1.2.2, Expr.Arranged.value value h.2.2.2⟩

end

theorem ReturnStmt.Laid.value {r : ReturnStmt} (h : r.Laid G) : ∀ i ∈ r.entries, i.value.Laid G := by
  intro i hi
  cases he : r.expr with
  | none =>
    rw [ReturnStmt.entries, he] at hi
    cases hi
  | some e =>
    rw [ReturnStmt.entries, he] at hi
    exact Expr.Arranged.value e (h e he).2.2 i hi

theorem Member.Laid.value {m : Member} (h : m.Laid G) : ∀ i ∈ m.entries, i.value.Laid G := by
  intro i hi
  cases m with
  | traitUse c => cases hi
  | other v => cases hi
  | property p =>
    obtain ⟨item, hitem, hi⟩ := List.mem_flatMap.1 hi
    cases he : item.default with
    | none =>
      rw [he] at hi
      cases hi
    | some e =>
      rw [he] at hi
      exact Expr.Arranged.value e ((h.2 item hitem).2.2 e he).2.2 i hi
  | method f =>
    obtain ⟨s, hs, hi⟩ := List.mem_flatMap.1 hi
    cases hbody : f.body with
    | none =>
      rw [hbody] at hs
      cases hs
    | some b =>
      rw [hbody] at hs
      have hlaid := (h.2.1 b hbody).2.2.2 s hs
      cases s with
      | ret r => exact ReturnStmt.Laid.value hlaid i hi
      | other v => cases hi

theorem Stmt.Laid.value {s : Stmt} (h : s.Laid G) : ∀ i ∈ s.entries, i.value.Laid G := by
  intro i hi
  cases s with
  | classLike c =>
    obtain ⟨m, hm, hi⟩ := List.mem_flatMap.1 hi
    exact (h.members m hm).value i hi
  | ret r => exact ReturnStmt.Laid.value h i hi
  | imports d => cases hi
  | declare v => cases hi
  | other v => cases hi

/-- In a laid file the value of every entry is laid. -/
theorem File.Laid.value {f : File} (h : f.Laid G) : ∀ i ∈ f.entries, i.value.Laid G := by
  intro i hi
  obtain ⟨s, hs, hi⟩ := List.mem_flatMap.1 hi
  have hlaid := h.stmts s hs
  cases s with
  | plain s => exact Stmt.Laid.value hlaid i hi
  | inside n =>
    obtain ⟨s, hs, hi⟩ := List.mem_flatMap.1 hi
    exact (hlaid.stmts s hs).value i hi

/-! ### Values -/

/-- The values that are read back: all strings, booleans and null, and the integers of which the magnitude is in
range. -/
def Scalar.IsReadable : Scalar → Prop
  | .int n => n.natAbs ≤ Literal.maxInt
  | .float _ => False
  | .string _ | .bool _ | .null => True

namespace Scalar

theorem isHeldBy_string (v : Scalar) (e : StringLit) : v.isHeldBy (.string e) = true ↔ v = .string e.value := by
  rcases v with t | n | x | (_ | _) | _ <;> simp [isHeldBy]
  exact eq_comm

theorem isHeldBy_int (v : Scalar) (e : IntLit) : v.isHeldBy (.int e) = true ↔ v = .int e.value := by
  rcases v with t | n | x | (_ | _) | _ <;> simp [isHeldBy]
  exact eq_comm

/-- The words of the values that are written as constants are told apart. -/
theorem isHeldBy_const {v : Scalar} {c : Name} (hv : v.toExpr = .freshConst c.text) (w : Scalar) :
    w.isHeldBy (.const c) = true ↔ w = v := by
  have htext : ∀ {t : Text}, Expr.freshConst t = .freshConst c.text → c.text = t := by
    intro t h
    exact (congrArg Name.text (Expr.const.inj h)).symm
  rcases v with t | n | x | (_ | _) | _
  · cases hv
  · cases hv
  · cases hv
  all_goals
    rcases w with t | n | x | (_ | _) | _ <;> simp only [isHeldBy, htext hv]
    all_goals simp <;> decide

end Scalar

/-- An expression that is what the tokens of a literal stand for holds the value, and no other one. -/
theorem Lexer.Spelling.isHeldBy_iff {v : Scalar} {ts : List Token} {e : Expr} (hv : v.IsReadable)
    (h : Spelling v (ts.map Token.lexeme)) (he : e.IsOf ts) (w : Scalar) : w.isHeldBy e = true ↔ w = v := by
  generalize hls : ts.map Token.lexeme = ls at h
  have hone : ∀ k x, ls = [⟨k, x⟩] → ∃ t, ts = [t] ∧ t.kind = k ∧ t.text = x := by
    rintro k x rfl
    obtain ⟨t, ts, rfl, ht, hts⟩ := List.map_eq_cons_iff.1 hls
    obtain rfl := List.map_eq_nil_iff.1 hts
    exact ⟨t, rfl, congrArg Lexeme.kind ht, congrArg Lexeme.text ht⟩
  have hword : ∀ x, ls = [⟨.ident, x⟩] → v.toExpr = .freshConst x → (w.isHeldBy e = true ↔ w = v) := by
    intro x hx hconst
    obtain ⟨t, rfl, hk, htext⟩ := hone _ _ hx
    obtain ⟨n, rfl, hn⟩ := he.2 hk
    exact Scalar.isHeldBy_const (by rw [hconst, hn, htext]) w
  cases h with
  | string x =>
    obtain ⟨t, rfl, hk, htext⟩ := hone _ _ rfl
    have hliteral := he.1
    simp only [hk, htext, Parser.literalOf?, Literal.decode?_quote, Option.map_some, Option.isSome_some] at hliteral
    obtain ⟨id, hid⟩ := hliteral trivial
    rw [← Option.some.inj hid]
    exact Scalar.isHeldBy_string w _
  | natural n =>
    obtain ⟨t, rfl, hk, htext⟩ := hone _ _ rfl
    have hliteral := he.1
    have hn : n ≤ Literal.maxInt := hv
    simp only [hk, htext, Parser.literalOf?, Literal.integer?_ofNat hn, Option.map_some, Option.isSome_some] at hliteral
    obtain ⟨id, hid⟩ := hliteral trivial
    rw [← Option.some.inj hid]
    exact Scalar.isHeldBy_int w _
  | negative n =>
    obtain ⟨t, ts, rfl, ht, hts⟩ := List.map_eq_cons_iff.1 hls
    obtain ⟨u, us, rfl, hu, hus⟩ := List.map_eq_cons_iff.1 hts
    obtain rfl := List.map_eq_nil_iff.1 hus
    have hku : u.kind = .int := congrArg Lexeme.kind hu
    have htextu : u.text = Text.ofNat (n + 1) := congrArg Lexeme.text hu
    have hliteral := he (congrArg Lexeme.kind ht) (congrArg Lexeme.text ht) (by simp [hku])
    have hn : n + 1 ≤ Literal.maxInt := hv
    simp only [hku, htextu, Parser.literalOf?, Literal.integer?_ofNat hn, Option.map_some, Option.isSome_some] at hliteral
    obtain ⟨id, hid⟩ := hliteral trivial
    rw [← Option.some.inj hid]
    exact Scalar.isHeldBy_int w _
  | yes => exact hword _ rfl rfl
  | no => exact hword _ rfl rfl
  | null => exact hword _ rfl rfl

/-! ### Rows of tokens -/

namespace Ground

variable {lo hi x y : Nat} {us ts : List Token} {h : Tiled lo us hi}

/-- The tokens of a row are those between its ends that are not skipped. -/
theorem Row.filter_stretch (hrow : (ofTiles h).Row x ts y) (hx : (ofTiles h).edge x) :
    x ≤ y ∧ (stretch us x y).filter (!·.kind.isSkipped) = ts := by
  have hnone : ∀ {d e}, (ofTiles h).blank d e → (stretch us d e).filter (!·.kind.isSkipped) = [] := fun hde =>
    List.filter_eq_nil_iff.2 fun t ht => by simp [isSkipped_of_blank hde t ht]
  induction ts generalizing x with
  | nil =>
    obtain rfl : x = y := hrow
    exact ⟨Nat.le_refl _, hnone ((ofTiles h).blank_refl hx)⟩
  | cons t ts ih =>
    obtain ⟨hblank, ht, hrest⟩ := hrow
    obtain ⟨hle, hts⟩ := ih hrest ((ofTiles h).edge_stop ht)
    have hstart := (ofTiles h).le_of_blank hblank
    have hlt := (ofTiles h).start_lt_stop ht
    refine ⟨by omega, ?_⟩
    rw [h.stretch_around ht.1 hstart hle, List.filter_append, hnone hblank, List.nil_append,
      List.filter_cons_of_pos (by simp [ht.2]), hts]

end Ground

/-! ### The passage of an expression -/

namespace Arena

variable {a : Arena} {source : Text} {x y : Nat}

/-- What stands behind a place where code goes on is read in code, and so is what stands behind the blank there. -/
theorem exists_reads_code (hx : (a.ground source).Resumes x) (hxy : (a.ground source).blank x y) : ∃ ls m,
    Lexer.Reads .code ((a.push source).text.slice y (a.text.size + source.size)) [] ls m ∧
      ls = a.lexemesFrom source y (a.text.size + source.size) := by
  obtain ⟨t, ht, hkind, rfl⟩ := hx
  have hlast := a.getLast?_lexemesFrom (a.edge_start source) ht.1 ((a.tiled_tokensOf source).within ht.1).1
  obtain ⟨m₁, m₂, m₃, hbefore, hgap, hbehind⟩ := reads_around ((a.ground source).edge_left hxy)
    ((a.ground source).edge_right hxy) ((a.ground source).le_of_blank hxy)
  obtain rfl : m₁ = .code := hbefore.mode_of_getLast? hlast fun hk => hkind (by simpa [Token.lexeme, or_comm] using hk)
  have hskip : ∀ k ∈ a.lexemesFrom source t.stop y, k.kind.isSkipped = true := by
    intro k hk
    obtain ⟨u, hu, rfl⟩ := List.mem_map.1 hk
    exact Ground.isSkipped_of_blank (h := a.tiled_tokensOf source) hxy u hu
  obtain ⟨rfl, -⟩ := hgap.exists_run (hgap.isTrivia_of_isSkipped hskip)
  exact ⟨_, _, hbehind, rfl⟩

/-- The text of an expression that was read is a passage of code, and the expression is what the lexemes of the passage
stand for. -/
theorem exists_reads_expr {e : Expr} (he : (a.ground source).Tells e) : ∃ ts w m,
    Lexer.Reads .code ((a.push source).text.slice e.span.start e.span.stop) w
      (a.lexemesFrom source e.span.start e.span.stop) m ∧
    (a.lexemesFrom source e.span.start e.span.stop).filter (!·.kind.isSkipped) = ts.map Token.lexeme ∧ e.IsOf ts := by
  obtain ⟨x, t, ts, hx, hstart, hrow, hof⟩ := he
  obtain ⟨hblank, ht, hrest⟩ := hrow
  rw [hstart] at hblank
  have hedge := (a.ground source).edge_right hblank
  have hrow : (a.ground source).Row e.span.start (t :: ts) e.span.stop :=
    ⟨by rw [hstart]; exact (a.ground source).blank_refl hedge, ht, hrest⟩
  obtain ⟨hle, hfilter⟩ := hrow.filter_stretch hedge
  have hstop := hrow.edge hedge
  obtain ⟨_, m, hreads, rfl⟩ := exists_reads_code hx hblank
  rw [lexemesFrom_append hstop hle hstop.2.1] at hreads
  obtain ⟨m', hexpr, -⟩ := hreads.of_append
  rw [flatMap_lexemesFrom hedge hstop hle] at hexpr
  refine ⟨t :: ts, _, m', hexpr, ?_, hof⟩
  rw [lexemesFrom, List.filter_map, ← hfilter]
  rfl

end Arena

/-- Where the text of an expression is the literal of a value, the expression holds this value, and no other one. -/
theorem Ground.Tells.isHeldBy_iff {source : Text} {e : Expr} {v : Scalar} {p : Page}
    (he : (Arena.empty.ground source).Tells e) (hv : v.IsReadable)
    (htext : source.slice e.span.start e.span.stop = p.literal v.toExpr) (w : Scalar) :
    w.isHeldBy e = true ↔ w = v := by
  obtain ⟨ls, hls⟩ := Lexer.exists_spelling (v := v) (by rintro x rfl; exact hv)
  obtain ⟨ts, _, m, hreads, hfilter, hof⟩ := Arena.exists_reads_expr he
  have hsource : (Arena.empty.push source).text = source := rfl
  rw [hsource, htext, ← hls.flatMap p] at hreads
  rw [hls.eq_of_reads hreads, List.filter_eq_self.2 fun l hl => by rw [hls.isSkipped l hl]; rfl] at hfilter
  exact (hfilter ▸ hls).isHeldBy_iff hv hof w

end Graft
