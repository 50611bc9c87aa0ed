/-
Nodes written on one line.

What an edit built is written from its values.  Digits, quotes and keywords bring no line break of their own, so that
such a node is written on one line when its texts are.

* `Text.oneLine_ofInt`, `FloatStyle.oneLine_write`, `Literal.oneLine_quote` — values;
* `Page.oneLine_literal`, `Page.oneLine_freshItem` — expressions;
* `TraitUse.oneLine_toText`, `Page.oneLine_freshStmt` — clauses and imports.
-/
import Graft.Print.File
import Graft.Proofs.Text.LineBreak
import Graft.Proofs.Tree.Revision

namespace Graft

/-! ### Texts -/

namespace Text

variable {s t : Text}

theorem OneLine.append (hs : s.OneLine) (ht : t.OneLine) : (s ++ t).OneLine :=
  fun hmem => (List.mem_append.1 hmem).elim hs ht

theorem OneLine.of_subset (ht : t.OneLine) (hsub : s ⊆ t) : s.OneLine := fun hmem => ht (hsub hmem)

theorem OneLine.crlf (ht : t.OneLine) : t.Crlf := crlf_of_not_mem ht

/-- A list of texts with commas. -/
theorem oneLine_join {ts : List Text} (h : ∀ t ∈ ts, t.OneLine) : OneLine (join [',', ' '] ts) :=
  not_mem_join (by decide) h

theorem oneLine_ofNat (n : Nat) : (ofNat n).OneLine := by
  intro hmem
  rw [ofNat, Nat.repr_eq_ofList_toDigits, String.toList_ofList] at hmem
  have hdigit := Nat.isDigit_of_mem_toDigits (by decide) (by decide) hmem
  cases hdigit

theorem oneLine_ofInt (i : Int) : (ofInt i).OneLine := by
  cases i with
  | ofNat n => exact oneLine_ofNat n
  | negSucc n => exact OneLine.append (s := ['-']) (by decide) (oneLine_ofNat (n + 1))

end Text

open Text (OneLine)

/-! ### Numbers -/

namespace FloatStyle

variable (style : FloatStyle)

theorem oneLine_zeros (n : Int) : (zeros n).OneLine := by
  intro hmem
  cases List.eq_of_mem_replicate hmem

theorem oneLine_positionalText {digits : Text} (h : digits.OneLine) (exp : Int) :
    (style.positionalText digits exp).OneLine := by
  unfold positionalText
  simp only
  split
  · refine (h.append (oneLine_zeros exp)).append ?_
    split
    · decide
    · decide
  · split
    · refine OneLine.append (h.of_subset (List.take_subset _ _)) ?_
      exact OneLine.append (s := ['.']) (by decide) (h.of_subset (List.drop_subset _ _))
    · exact OneLine.append (OneLine.append (by decide) (oneLine_zeros _)) h

theorem oneLine_scientificText {digits : Text} (h : digits.OneLine) (exp : Int) :
    (style.scientificText digits exp).OneLine := by
  unfold scientificText
  refine OneLine.append (OneLine.append (OneLine.append (OneLine.append ?_ ?_) (by decide)) ?_) (Text.oneLine_ofInt _)
  · exact h.of_subset (List.take_subset _ _)
  · split
    · decide
    · exact OneLine.append (s := ['.']) (by decide) (h.of_subset (List.drop_subset _ _))
  · split
    · decide
    · decide

/-- Numbers are written on one line when the names of those that are not finite are. -/
theorem oneLine_write (hnan : style.nan.OneLine) (hinfinity : style.infinity.OneLine) (x : Binary64) :
    (style.write x).OneLine := by
  have habs : (style.writeAbs x).OneLine := by
    unfold writeAbs
    split
    · exact style.oneLine_positionalText (by decide) 0
    · simp only
      split
      · exact style.oneLine_positionalText (Text.oneLine_ofNat _) _
      · exact style.oneLine_scientificText (Text.oneLine_ofNat _) _
  unfold write
  split
  · exact hnan
  · refine OneLine.append ?_ ?_
    · split
      · decide
      · decide
    · split
      · exact hinfinity
      · exact habs

end FloatStyle

namespace Literal

theorem oneLine_sourceFloats (x : Binary64) : (sourceFloats.write x).OneLine :=
  sourceFloats.oneLine_write (by decide) (by decide) x

/-- A quoted text has the line breaks of the text. -/
theorem oneLine_quote {t : Text} (h : t.OneLine) : (quote t).OneLine := by
  have hescape : (escapeSingle t).OneLine := by
    intro hmem
    obtain ⟨c, hc, hmem⟩ := List.mem_flatMap.1 hmem
    have hbreak : c = '\n' := by
      split at hmem
      · rcases List.mem_cons.1 hmem with hslash | hmem
        · cases hslash
        · exact (List.mem_singleton.1 hmem).symm
      · exact (List.mem_singleton.1 hmem).symm
    exact h (hbreak ▸ hc)
  exact OneLine.append (s := ['\'']) (by decide) (hescape.append (by decide))

end Literal

/-! ### Expressions -/

namespace Page

variable (p : Page)

mutual

/-- What edits built is written on one line. -/
theorem oneLine_literal (e : Expr) (he : e.Built) : (p.literal e).OneLine := by
  cases e with
  | array a => exact oneLine_freshArray a he
  | string e => exact Literal.oneLine_quote he.2
  | int e => exact Text.oneLine_ofInt e.value
  | float e => exact Literal.oneLine_sourceFloats e.value
  | const e => exact he.2
  | other e => exact he.elim
termination_by structural e

theorem oneLine_freshArray (a : ArrayLit Expr) (ha : a.Built) : (p.freshArray a).OneLine := by
  cases a with
  | mk _ _ short _ items =>
    have hitems := Text.oneLine_join (oneLine_freshItems items ha.2)
    rw [freshArray]
    split
    · exact OneLine.append (OneLine.append (by decide) hitems) (by decide)
    · exact OneLine.append (OneLine.append (by decide) hitems) (by decide)
termination_by structural a

theorem oneLine_freshItems (is : List (ArrayItem Expr)) (his : ArrayItem.BuiltAll is) :
    ∀ t ∈ p.freshItems is, t.OneLine := by
  cases is with
  | nil => exact nofun
  | cons i is => exact List.forall_mem_cons.2 ⟨oneLine_freshItem i his.1, oneLine_freshItems is his.2⟩
termination_by structural is

theorem oneLine_freshItem (i : ArrayItem Expr) (hi : i.Built) : (p.freshItem i).OneLine := by
  cases i with
  | mk _ _ key value byRef unpack =>
    obtain ⟨-, hkey, hvalue⟩ := hi
    rw [freshItem]
    refine OneLine.append (OneLine.append (OneLine.append (oneLine_freshKey key hkey) ?_) ?_) ?_
    · cases unpack <;> decide
    · cases byRef <;> decide
    · rw [hvalue.origin_eq_none]
      exact oneLine_literal value hvalue
termination_by structural i

theorem oneLine_freshKey (e : Option Expr) (he : Expr.BuiltKey e) : (p.freshKey e).OneLine := by
  cases e with
  | none => exact List.not_mem_nil
  | some e =>
    have hbuilt : e.Built := he
    rw [freshKey, hbuilt.origin_eq_none]
    exact OneLine.append (oneLine_literal e he) (by decide)
termination_by structural e

end

theorem oneLine_freshExpr {e : Expr} (he : e.Built) : (p.freshExpr e).OneLine := by
  unfold freshExpr
  rw [he.origin_eq_none]
  exact p.oneLine_literal e he

end Page

/-! ### Clauses and imports -/

theorem TraitUse.oneLine_toText {c : TraitUse} (h : c.Built) : c.toText.OneLine := by
  have hnames : ∀ t ∈ c.names.map Name.text, t.OneLine := by
    intro t ht
    obtain ⟨n, hn, rfl⟩ := List.mem_map.1 ht
    exact (h.2 n hn).2
  exact OneLine.append (OneLine.append (by decide) (Text.oneLine_join hnames)) (by decide)

theorem Import.oneLine_toText {d : Import} (h : d.Built) : d.toText.OneLine := by
  obtain ⟨name, hname, rfl⟩ := h
  show ("use ".toList ++ [] ++ ([] ++ name ++ []) ++ [';'] : Text).OneLine
  rw [List.append_nil, List.nil_append, List.append_nil]
  exact OneLine.append (OneLine.append (by decide) hname) (by decide)

theorem Page.oneLine_freshStmt (p : Page) {s : Stmt} (h : s.Built) : (p.freshStmt s).OneLine := by
  obtain ⟨d, rfl, hd⟩ := h
  have htext := Import.oneLine_toText hd
  obtain ⟨name, -, rfl⟩ := hd
  exact htext

end Graft
