/-
Nodes that cut no line break.

In a text whose line feeds all follow carriage returns the spans of a parsed file begin and end at clear offsets: they
are left alone by the relocation that moves all other spans.

* `Relocation.clear` — the relocation, and what it leaves alone;
* `mem_marks` — where the marks of tokens stand;
* `relocate_clear_parseFile` — the tree of a file that was parsed.
-/
import Graft.Proofs.Reading.Shift
import Graft.Proofs.Token.Ends

namespace Graft

/-! ### Spans between clear offsets -/

/-- Both ends of the span are clear. -/
def Span.Clear (s : Text) (x : Span) : Prop := s.Clear x.start ∧ s.Clear x.stop

instance (s : Text) (x : Span) : Decidable (x.Clear s) := inferInstanceAs (Decidable (_ ∧ _))

namespace Relocation

/-- Leaves the spans between clear offsets alone and moves all other ones. -/
def clear (s : Text) : Relocation where
  id i := i
  span x := if x.Clear s then x else x.shift 1

variable {s : Text}

theorem clear_of_span {x : Span} (h : (clear s).span x = x) : x.Clear s := by
  by_cases hx : x.Clear s
  · exact hx
  · have hmoved : x.shift 1 = x := (if_neg hx).symm.trans h
    have hstart := congrArg Span.start hmoved
    exact absurd hstart (Nat.succ_ne_self x.start)

theorem span_of_clear {x : Span} (h : x.Clear s) : (clear s).span x = x := if_pos h

theorem clear_of_offset {x : Nat} (h : (clear s).offset x = x) : s.Clear x := by
  by_cases hx : Span.Clear s (.point x)
  · exact hx.1
  · have hmoved : ((Span.point x).shift 1).start = x := (congrArg Span.start (if_neg hx).symm).trans h
    exact absurd hmoved (Nat.succ_ne_self x)

end Relocation

/-! ### Marks -/

/-- A mark is a token that is not skipped; its lead is where that or a comment begins, or what led before. -/
theorem mem_marks {seen : Nat → Prop} {margin : Margin} {ts : List Token} (hmargin : ∀ l, margin.lead = some l → seen l)
    (hts : ∀ t ∈ ts, t.kind ≠ .whitespace → seen t.start) :
    ∀ m ∈ marks margin ts, m.token ∈ ts ∧ m.token.kind.isSkipped = false ∧ seen m.lead := by
  have hnone : ∀ {margin : Margin}, margin.lead = none → ∀ l, margin.lead = some l → seen l := by
    intro margin hnone l hl
    rw [hnone] at hl
    cases hl
  induction ts generalizing margin with
  | nil =>
    intro m hm
    cases (show m ∈ [] from hm)
  | cons t ts ih =>
    obtain ⟨ht, hrest⟩ := List.forall_mem_cons.1 hts
    have hmore : ∀ {margin : Margin}, (∀ l, margin.lead = some l → seen l) → ∀ m ∈ marks margin ts,
        m.token ∈ t :: ts ∧ m.token.kind.isSkipped = false ∧ seen m.lead := by
      intro margin hmargin m hm
      obtain ⟨hmem, hm⟩ := ih hmargin hrest m hm
      exact ⟨List.mem_cons_of_mem _ hmem, hm⟩
    intro m hm
    rw [marks] at hm
    split at hm
    · exact hmore (hnone rfl) m hm
    · rename_i hopen
      split at hm
      · refine hmore (fun l hl => ?_) m hm
        -- A lead that is new is a comment.
        unfold Margin.push at hl
        split at hl
        · exact hmargin l hl
        · split at hl
          · exact hmargin l hl
          · rename_i hspace
            split at hl
            · cases hl
              exact ht hspace
            · exact hmargin l hl
      · rename_i htrivia
        rcases List.mem_cons.1 hm with rfl | hm
        · have hskipped : t.kind.isSkipped = false := by simp [TokenKind.isSkipped, hopen, htrivia]
          refine ⟨List.mem_cons_self, hskipped, ?_⟩
          cases hlead : margin.lead with
          | none =>
            refine ht fun hspace => htrivia ?_
            rw [hspace]
            rfl
          | some l => exact hmargin l hlead
        · exact hmore (hnone rfl) m hm

/-! ### Two runs on one text -/

/-- The transport that leaves clear offsets where they are. -/
def Transport.clear (s : Text) : Transport where
  map := .clear s
  offset x := x
  Seen := s.Clear
  Spot _ := True
  base := 0
  span_eq hx hy := Relocation.span_of_clear ⟨hx, hy⟩
  id_succ _ := rfl

theorem Transport.sees_clear {s : Text} {t : Token} (h : t.Keeps s) (hskipped : t.kind.isSkipped = false) :
    (Transport.clear s).Sees t := by
  obtain ⟨htrivia, -⟩ := Bool.or_eq_false_iff.1 hskipped
  refine ⟨h.start fun hspace => ?_, ⟨h.stop htrivia, rfl⟩, fun hname => ⟨h.name hname, rfl⟩, trivial⟩
  rw [hspace] at htrivia
  cases htrivia

namespace Arena

variable {s : Text}

theorem clear_zero (h : s.Crlf) : s.Clear 0 := Text.clear_of_head? (s := []) h.head?_ne

/-- Where the code starts is clear. -/
theorem clear_codeStart (h : s.Crlf) (hkeeps : ∀ u ∈ empty.tokensOf s, u.Keeps s) {n z : Nat}
    (hstart : (empty.push s).codeStart (empty.nextSource s) = (n, z)) : s.Clear z := by
  simp only [codeStart, tokens_nextSource] at hstart
  split at hstart
  · rename_i u hu
    split at hstart
    · rename_i htag
      cases hstart
      exact (hkeeps u (List.mem_of_getElem? hu)).stop (by rw [htag]; rfl)
    · cases hstart
      exact clear_zero h
  · cases hstart
    exact clear_zero h

/-- The state that the parser starts from sees clear offsets only. -/
theorem states_clear (h : s.Crlf) (hkeeps : ∀ u ∈ empty.tokensOf s, u.Keeps s) {n z : Nat}
    (hstart : (empty.push s).codeStart (empty.nextSource s) = (n, z)) :
    (Transport.clear s).States (empty.startState s n) (empty.startState s n) := by
  have hprev : (empty.startState s n).cursor.prevEnd = z := by
    obtain ⟨n', z', hstart', -, hprev, -⟩ := empty.exists_start s
    cases hstart.symm.trans hstart'
    have hfirst : (empty.nextSource s).first + n = n := Nat.zero_add n
    rw [startState, hfirst]
    exact hprev
  have hsize : (empty.startState s n).cursor.eof = s.size := Nat.zero_add s.size
  have hmarks : ∀ m ∈ marks .afterTag ((empty.tokensOf s).drop n),
      m.token ∈ (empty.tokensOf s).drop n ∧ m.token.kind.isSkipped = false ∧ s.Clear m.lead :=
    mem_marks nofun fun u hu => (hkeeps u (List.mem_of_mem_drop hu)).start
  refine ⟨⟨(List.map_id _).symm, fun m hm => ?_, ⟨?_, rfl⟩, ⟨?_, rfl⟩, trivial⟩, Nat.zero_le _, rfl⟩
  · rw [ahead_startState] at hm
    obtain ⟨hmem, hskipped, hlead⟩ := hmarks m hm
    exact ⟨Transport.sees_clear (hkeeps _ (List.mem_of_mem_drop hmem)) hskipped, hlead⟩
  · rw [hprev]
    exact clear_codeStart h hkeeps hstart
  · rw [hsize]
    exact s.clear_size

/-- The spans of a parsed file begin and end at clear offsets. -/
theorem relocate_clear_parseFile {f : File} {a : Arena} (h : s.Crlf) (hf : empty.parseFile s = (.ok f, a)) :
    f.relocate (.clear s) = f := by
  obtain ⟨⟨n, z⟩, hstart⟩ : ∃ start, (empty.push s).codeStart (empty.nextSource s) = start := ⟨_, rfl⟩
  rw [empty.parseFile_eq hstart] at hf
  split at hf
  · cases hf
  · rename_i hnone
    -- No token is an error, so all of them keep the breaks of the text.
    have hkeeps : ∀ u ∈ empty.tokensOf s, u.Keeps s := by
      intro u hu
      have herror : u.kind ≠ .error := fun herror => List.find?_eq_none.1 hnone u hu (beq_iff_eq.2 herror)
      obtain ⟨v, hv, rfl⟩ := List.mem_map.1 hu
      exact Lexer.keeps_lex h v hv herror
    have hsize : (empty.nextSource s).span.stop = s.size := Nat.zero_add s.size
    have hend : s.Clear (empty.nextSource s).span.stop := hsize ▸ s.clear_size
    have hspan : (empty.nextSource s).span.Clear s := ⟨clear_zero h, hend⟩
    have hbody : Span.Clear s ⟨z + empty.text.size, (empty.nextSource s).span.stop⟩ :=
      ⟨clear_codeStart h hkeeps hstart, hend⟩
    have hrun := Parser.tracks_file_relocate (T := Transport.clear s) (Relocation.span_of_clear hspan).symm
      (Relocation.span_of_clear hbody).symm _ _ (states_clear h hkeeps hstart)
    split at hf
    · rename_i g st hg
      cases hf
      rw [hg] at hrun
      cases hrun with
      | ok hfg => exact hfg.symm
    · cases hf

end Arena

end Graft
