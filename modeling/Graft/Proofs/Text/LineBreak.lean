/-
Texts whose lines end with a carriage return and a line feed.

In such a text every line feed follows a carriage return.  Texts that are put together from such texts are such texts,
and so are their parts, unless a part begins with the line feed of a break that was cut.  An offset is clear when no
line feed stands there, so that nothing is cut at it.

* `Crlf.append`, `Crlf.left`, `Crlf.right`, `Crlf.slice` — putting together and cutting;
* `crlf_reindent` — lines that are placed anew;
* `ofText_of_crlf` — the break that such a text uses.
-/
import Graft.Print.Indent
import Graft.Proofs.Text.Search

namespace Graft

namespace Text

/-! ### Breaks -/

/-- Every line feed of the text follows a carriage return. -/
def Crlf (t : Text) : Prop := ∀ a b, t = a ++ '\n' :: b → a.getLast? = some '\r'

variable {s t u : Text}

theorem crlf_iff_getElem? :
    t.Crlf ↔ ∀ i < t.length, t[i]? = some '\n' → (t.take i).getLast? = some '\r' := by
  constructor
  · intro h i hi hbreak
    refine h (t.take i) (t.drop (i + 1)) ?_
    rw [List.getElem?_eq_getElem hi] at hbreak
    rw [← Option.some.inj hbreak, List.getElem_cons_drop hi, List.take_append_drop]
  · rintro h a b rfl
    have hlast := h a.length (by rw [List.length_append, List.length_cons]; omega) (by
      rw [List.getElem?_append_right (Nat.le_refl _), Nat.sub_self, List.getElem?_cons_zero])
    rwa [List.take_left] at hlast

instance (t : Text) : Decidable t.Crlf := decidable_of_iff _ crlf_iff_getElem?.symm

theorem crlf_of_not_mem (h : '\n' ∉ t) : t.Crlf := by
  rintro a b rfl
  exact absurd (List.mem_append_right a List.mem_cons_self) h

theorem crlf_nil : Crlf [] := crlf_of_not_mem List.not_mem_nil

theorem getLast?_append_of_ne_nil (s : Text) (h : t ≠ []) : (s ++ t).getLast? = t.getLast? := by
  rw [List.getLast?_append, List.getLast?_eq_some_getLast h, Option.some_or]

/-- The first character of the text is no line feed. -/
theorem Crlf.head?_ne (h : t.Crlf) : t.head? ≠ some '\n' := by
  intro hhead
  cases t with
  | nil => cases hhead
  | cons c t =>
    cases hhead
    cases h [] t rfl

theorem Crlf.append (hs : s.Crlf) (ht : t.Crlf) : (s ++ t).Crlf := by
  intro a b hab
  rcases List.append_eq_append_iff.1 hab with ⟨m, rfl, htail⟩ | ⟨m, rfl, htail⟩
  · -- The line feed stands in the second text, behind its first character.
    have hlast := ht m b htail
    rw [List.getLast?_append, hlast]
    rfl
  · cases m with
    | nil => cases ht.head?_ne (by rw [show t = '\n' :: b from htail.symm]; rfl)
    | cons c m =>
      obtain ⟨rfl, -⟩ := List.cons.inj htail
      exact hs a m rfl

theorem Crlf.left (h : Crlf (s ++ t)) : s.Crlf := by
  rintro a b rfl
  exact h a (b ++ t) (by rw [List.append_assoc, List.cons_append])

theorem Crlf.right (h : Crlf (s ++ t)) (hhead : t.head? ≠ some '\n') : t.Crlf := by
  rintro a b rfl
  have hlast := h (s ++ a) b (by rw [List.append_assoc])
  cases a with
  | nil => exact absurd rfl hhead
  | cons c a => rwa [getLast?_append_of_ne_nil s (List.cons_ne_nil c a)] at hlast

/-- A text without its trailing blanks. -/
theorem Crlf.trimEnd (h : t.Crlf) : t.trimEnd.Crlf := by
  obtain ⟨blanks, hblanks⟩ := List.reverse_prefix.2 (List.dropWhile_suffix isBlank (l := t.reverse))
  rw [List.reverse_reverse] at hblanks
  rw [← hblanks] at h
  exact h.left

/-- A line feed in the rest of a text follows a carriage return there, or the text before ends with one. -/
theorem Crlf.getLast?_of_head? (h : Crlf (s ++ t)) (hhead : t.head? = some '\n') : s.getLast? = some '\r' := by
  cases t with
  | nil => cases hhead
  | cons c t =>
    cases hhead
    exact h s t rfl

theorem crlf_break (ht : t.Crlf) : Crlf ('\r' :: '\n' :: t) := by
  have hbreak : Crlf ['\r', '\n'] := by
    intro a b hab
    cases a with
    | nil => cases hab
    | cons c a =>
      cases a with
      | nil =>
        cases hab
        rfl
      | cons d a => cases a <;> cases hab
  exact hbreak.append ht

theorem crlf_newline : Crlf Newline.crlf.text := crlf_break crlf_nil

theorem crlf_getD {ts : List Text} (h : ∀ t ∈ ts, t.Crlf) (i : Nat) : (ts.getD i []).Crlf := by
  rw [List.getD_eq_getElem?_getD]
  cases hi : ts[i]? with
  | none => exact crlf_nil
  | some t => exact h t (List.mem_of_getElem? hi)

theorem crlf_flatMap {α : Type} {f : α → Text} {as : List α} (h : ∀ a ∈ as, (f a).Crlf) :
    Crlf (as.flatMap f) := by
  induction as with
  | nil => exact crlf_nil
  | cons a as ih =>
    obtain ⟨ha, has⟩ := List.forall_mem_cons.1 h
    exact ha.append (ih has)

theorem crlf_join {sep : Text} (hsep : sep.Crlf) {ps : List Text} (h : ∀ p ∈ ps, p.Crlf) : (join sep ps).Crlf := by
  induction ps with
  | nil => exact crlf_nil
  | cons p ps ih =>
    obtain ⟨hp, hps⟩ := List.forall_mem_cons.1 h
    cases ps with
    | nil => exact hp
    | cons q ps => exact (hp.append hsep).append (ih hps)

/-- A join of texts without line feeds. -/
theorem not_mem_join {c : Char} {sep : Text} (hsep : c ∉ sep) {ps : List Text} (h : ∀ p ∈ ps, c ∉ p) :
    c ∉ join sep ps := by
  induction ps with
  | nil => exact List.not_mem_nil
  | cons p ps ih =>
    obtain ⟨hp, hps⟩ := List.forall_mem_cons.1 h
    cases ps with
    | nil => exact hp
    | cons q ps =>
      rw [join, List.mem_append, List.mem_append]
      rintro ((hmem | hmem) | hmem)
      · exact hp hmem
      · exact hsep hmem
      · exact ih hps hmem

/-! ### Clear offsets -/

/-- The offset lies in the text or at its end, and no line feed stands there. -/
def Clear (t : Text) (x : Nat) : Prop := x ≤ t.size ∧ (drop? x t).bind List.head? ≠ some '\n'

instance (t : Text) (x : Nat) : Decidable (t.Clear x) := inferInstanceAs (Decidable (_ ∧ _))

/-- Behind a part of the text an offset is clear when what follows does not begin with a line feed. -/
theorem clear_of_head? (h : t.head? ≠ some '\n') : (s ++ t).Clear s.size := by
  refine ⟨?_, ?_⟩
  · rw [size_append]
    exact Nat.le_add_right _ _
  · rw [drop?_size_append, Option.bind_some]
    exact h

theorem clear_size (t : Text) : t.Clear t.size := by
  have h := clear_of_head? (s := t) (t := []) nofun
  rwa [List.append_nil] at h

/-- What stands behind an offset that lies in a text is an end of the text. -/
theorem exists_of_drop? {x : Nat} (h : drop? x t = some u) : ∃ p, t = p ++ u := by
  cases hp : take? x t with
  | none => rw [drop?_eq_none hp] at h; cases h
  | some p =>
    obtain ⟨q, hq, hpq⟩ := take?_append_drop? hp
    obtain rfl : q = u := Option.some.inj (hq.symm.trans h)
    exact ⟨p, hpq.symm⟩

theorem exists_of_take? {n : Nat} {p : Text} (h : take? n t = some p) : ∃ q, t = p ++ q := by
  obtain ⟨q, -, hpq⟩ := take?_append_drop? h
  exact ⟨q, hpq.symm⟩

/-- A part that begins at a clear offset. -/
theorem Crlf.slice (h : t.Crlf) {x : Nat} (hx : t.Clear x) (y : Nat) : (t.slice x y).Crlf := by
  unfold Text.slice
  split
  · cases hu : drop? x t with
    | none => exact crlf_nil
    | some u =>
      have hhead : u.head? ≠ some '\n' := by
        have := hx.2
        rwa [hu, Option.bind_some] at this
      obtain ⟨p, rfl⟩ := exists_of_drop? hu
      rw [Option.bind_some]
      cases hv : take? (y - x) u with
      | none => exact crlf_nil
      | some v =>
        obtain ⟨w, rfl⟩ := exists_of_take? hv
        exact (h.right hhead).left
  · exact crlf_nil

/-! ### Lines -/

theorem firstLine_eq (t : Text) : t.firstLine.1 ++ t.firstLine.2 = t := List.takeWhile_append_dropWhile

theorem not_mem_firstLine (t : Text) : '\n' ∉ t.firstLine.1 := by
  intro hmem
  have hall := List.all_eq_true.1 List.all_takeWhile _ hmem
  exact absurd rfl (of_decide_eq_true hall)

/-- What follows the first line begins with its break. -/
theorem head?_firstLine {c : Char} (h : t.firstLine.2.head? = some c) : c = '\n' := by
  have hhead : (t.dropWhile (· ≠ '\n')).head? = some c := h
  have hnot := List.head?_dropWhile_not (fun d : Char => decide (d ≠ '\n')) t
  rw [hhead] at hnot
  exact Classical.not_not.1 (of_decide_eq_false hnot)

/-- The first line of the text ends with a carriage return, if it has a break at all. -/
theorem Crlf.firstLine (h : t.Crlf) (hbreak : t.firstLine.2 ≠ []) : t.firstLine.1.getLast? = some '\r' := by
  obtain ⟨c, rest, hrest⟩ := List.exists_cons_of_ne_nil hbreak
  have hhead : t.firstLine.2.head? = some c := by rw [hrest]; rfl
  have hc := head?_firstLine hhead
  rw [← firstLine_eq t] at h
  exact h.getLast?_of_head? (by rw [hhead, hc])

end Text

open Text

/-- A text with a break uses the one of all its lines. -/
theorem Newline.ofText_of_crlf {t : Text} (h : t.Crlf) (hmem : '\n' ∈ t) : Newline.ofText t = .crlf := by
  have hbreak : t.firstLine.2 ≠ [] := by
    intro hnil
    rw [← firstLine_eq t, hnil, List.append_nil] at hmem
    exact not_mem_firstLine t hmem
  have hlast := h.firstLine hbreak
  unfold ofText
  generalize t.firstLine = lines at hbreak hlast ⊢
  obtain ⟨line, rest⟩ := lines
  cases rest with
  | nil => exact absurd rfl hbreak
  | cons c rest => exact if_pos hlast

/-! ### Indentation -/

/-- Blanks that indent hold no break. -/
theorem not_mem_lineIndent (t : Text) (offset : Nat) : '\n' ∉ lineIndent t offset := by
  intro hmem
  have hblank : isIndent '\n' = true := List.all_eq_true.1 List.all_takeWhile _ hmem
  cases hblank

theorem not_mem_deeper {indent : Text} (h : '\n' ∉ indent) : '\n' ∉ deeper indent := by
  rw [deeper, List.mem_append, not_or]
  exact ⟨h, by decide⟩

theorem not_mem_stripCR {line : Text} (h : '\n' ∉ line) : '\n' ∉ line.stripCR := by
  unfold stripCR
  split
  · exact fun hmem => h (List.dropLast_subset line hmem)
  · exact h

/-- A line that is placed anew stands behind a break of the page. -/
theorem crlf_reindentLine {from_ to_ line : Text} (hto : '\n' ∉ to_) (hline : '\n' ∉ line) :
    (reindentLine from_ to_ .crlf line).Crlf := by
  have hstrip := not_mem_stripCR hline
  unfold reindentLine
  refine crlf_newline.append ?_
  split
  · exact crlf_nil
  · refine (crlf_of_not_mem hto).append (crlf_of_not_mem ?_)
    cases hrest : strip? from_ line.stripCR with
    | none =>
      show '\n' ∉ line.stripCR.trimStart
      exact fun hmem => hstrip (List.dropWhile_subset isBlank hmem)
    | some rest =>
      rw [strip?_eq_some hrest] at hstrip
      exact fun hmem => hstrip (List.mem_append_right _ hmem)

/-- Lines that are placed anew stand behind breaks of the page, whatever breaks they had. -/
theorem crlf_reindent (from_ : Text) {to_ : Text} (hto : '\n' ∉ to_) (t : Text) : (reindent from_ to_ .crlf t).Crlf := by
  have hparts : ∀ line ∈ splitOn '\n' t, '\n' ∉ line := fun _ => not_mem_of_mem_splitOn
  unfold reindent
  split
  · exact crlf_nil
  · rename_i line lines hlines
    rw [hlines] at hparts
    obtain ⟨hline, hrest⟩ := List.forall_mem_cons.1 hparts
    exact (crlf_of_not_mem (not_mem_stripCR hline)).append
      (crlf_flatMap fun l hl => crlf_reindentLine hto (hrest l hl))

end Graft
