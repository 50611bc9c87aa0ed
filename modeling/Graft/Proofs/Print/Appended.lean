/-
A list of lines with one more element.

A gap is cut at its first break, and blanks are cut off its end.  Both parts of a gap of trivia are trivia when no
comment goes on behind the cut.  An element that is put behind a list of lines stands behind the trail of the last
element, on a line of its own; the elements before it are printed as the text that they were read from.

* `Scan.run_splitTrail`, `Scan.run_trimEnd` — the parts of a gap;
* `Lexer.Reads.significant_break` — code behind a passage, a trail and a break;
* `Lexer.significant_lead` — what is left of a gap behind the cut;
* `Page.lineList_singleton` — the first element of a list that had none;
* `Page.lineList_snoc` — an element behind others.
-/
import Graft.Print.LineList
import Graft.Proofs.Print.Region
import Graft.Proofs.Print.Reindent
import Graft.Proofs.Reading.Cover

namespace Graft

/-! ### Parts of a gap -/

/-- A trail is cut off at a break, or there is none. -/
theorem splitTrail_cases (gap : Text) :
    (splitTrail gap).1 = [] ∨ (splitTrail gap).2.BeginsLine := by
  have hnext : ∀ c u, gap.dropWhile (· ≠ '\n') = c :: u → c = '\n' := by
    intro c u h
    have hnot := List.head?_dropWhile_not (· ≠ '\n') gap
    rw [h] at hnot
    simpa using hnot
  simp only [splitTrail, Text.firstLine]
  split
  · exact .inl rfl
  · rename_i line rest hrest heq
    simp only [Prod.mk.injEq] at heq
    obtain ⟨rfl, rfl⟩ := heq
    cases hd : gap.dropWhile (· ≠ '\n') with
    | nil => exact absurd hd hrest
    | cons c u =>
      obtain rfl := hnext c u hd
      split
      · exact .inr (.inr ⟨u, rfl⟩)
      · exact .inr (.inl rfl)

theorem trimEnd_append (t : Text) : ∃ z, t = t.trimEnd ++ z ∧ ∀ c ∈ z, Text.isBlank c = true := by
  refine ⟨(t.reverse.takeWhile Text.isBlank).reverse, ?_, fun c hc => ?_⟩
  · rw [Text.trimEnd, ← List.reverse_append, List.takeWhile_append_dropWhile, List.reverse_reverse]
  · exact List.all_eq_true.1 List.all_takeWhile c (List.mem_reverse.1 hc)

namespace Scan

variable {s s' : Scan}

/-- Blanks do not close a comment that a break leaves open. -/
theorem closed_of_blank {z : Text} (hz : ∀ c ∈ z, Text.isBlank c = true) (h : s.run z = some s') (hs' : s'.closed = true) :
    s.closed = true := by
  induction z generalizing s with
  | nil =>
    cases h
    exact hs'
  | cons c z ih =>
    obtain ⟨hc, hz⟩ := List.forall_mem_cons.1 hz
    rw [run_cons] at h
    obtain ⟨r, hr, h⟩ := Option.bind_eq_some_iff.1 h
    have hslash : c ≠ '/' := by
      rintro rfl
      cases hc
    have hstar : c ≠ '*' := by
      rintro rfl
      cases hc
    have hclosed := ih hz h
    cases s with
    | free | sharp | line => rfl
    | slash =>
      rw [step, if_neg hslash, if_neg hstar] at hr
      cases hr
    | block =>
      rw [step, if_neg hstar] at hr
      cases hr
      exact hclosed
    | star =>
      rw [step, if_neg hslash, if_neg hstar] at hr
      cases hr
      exact hclosed

/-- No comment is open behind trivia without their last blanks. -/
theorem run_trimEnd {t : Text} (h : free.run t = some s) (hs : s.closed = true) :
    ∃ r : Scan, r.closed = true ∧ free.run t.trimEnd = some r := by
  obtain ⟨z, ht, hz⟩ := trimEnd_append t
  rw [ht, run_append] at h
  obtain ⟨r, hr, h⟩ := Option.bind_eq_some_iff.1 h
  exact ⟨r, closed_of_blank hz h hs, hr⟩

/-- The lead behind a trail in which no comment is open. -/
theorem run_splitTrail {gap : Text} {r : Scan} (h : free.run gap = some s) (hr : r.closed = true)
    (htrail : free.run (splitTrail gap).1 = some r) : free.run (splitTrail gap).2 = some s := by
  rw [← splitTrail_append gap, run_append, htrail, Option.bind_some] at h
  rcases splitTrail_cases gap with hnil | hbreak
  · rw [hnil] at htrail
    cases htrail
    exact h
  · rwa [run_break hr hbreak] at h

end Scan

namespace Lexer

open TokenTable

variable {m : Mode} {x w rest : Text} {ls : List Lexeme} {l : Lexeme}

/-- The machine goes through a text that is read as trivia. -/
theorem exists_run_of_significant {t : Text} (h : significant .code t = []) :
    ∃ s : Scan, s.closed = true ∧ Scan.free.run t = some s := by
  obtain ⟨m, hreads⟩ := Reads.whole .code t
  obtain ⟨-, s, hs, hrun, -⟩ := hreads.exists_run fun l hl => by simpa using List.filter_eq_nil_iff.1 h l hl
  exact ⟨s, hs, hrun⟩

/-- A break and blanks behind it change nothing. -/
theorem significant_newline (k : Newline) {z : Text} (hz : ∀ c ∈ z, TokenTable.isSpace c = true) (w : Text) :
    significant .code (k.text ++ z ++ w) = significant .code w := by
  refine significant_of_run (s := .free) rfl (Scan.run_space fun c hc => ?_) (.inl rfl)
  exact (List.mem_append.1 hc).elim (k.isSpace_text c) (hz c)

/-- Behind a lexeme that is neither trivia nor outside of the code a blank may stand, or nothing. -/
theorem ends_of_blank (hl : l.kind ∉ [.inlineHtml, .error, .whitespace, .lineComment]) {w' : Text}
    (hw : w'.head?.all TokenTable.isSpace = true) : Ends l w w' := by
  simp only [List.mem_cons, List.not_mem_nil, or_false, not_or] at hl
  by_cases htag : l.kind = .openTag
  · exact .inr (.inl ⟨htag, fun _ => hw⟩)
  · refine .inr (.inr ⟨by simp [hl, htag], Parts.agrees (.inl fun c hc => ?_), ?_⟩)
    · rw [Option.mem_def] at hc
      rw [hc] at hw
      exact mem_delimiters_of_isSpace hw
    · cases w' with
      | nil => exact .inr (.inl rfl)
      | cons c w' => exact .inr (.inr ⟨by simp [hl], .inl hw⟩)

/-- What stood behind the lexeme may go on up to a line break. -/
theorem ends_of_trail (hl : l.kind ∉ [.inlineHtml, .openTag, .error, .whitespace, .lineComment]) {trail v : Text}
    (htrail : trail <+: w) (hv : v.BeginsLine) : Ends l w (trail ++ v) := by
  have hspace : ∃ c u, v = c :: u ∧ TokenTable.isSpace c = true ∧ c ∈ '[' :: delimiters := by
    rcases hv with hv | ⟨u, rfl⟩
    · obtain ⟨u, rfl⟩ := List.head?_eq_some_iff.1 hv
      exact ⟨_, u, rfl, rfl, by decide⟩
    · exact ⟨_, _, rfl, rfl, by decide⟩
  obtain ⟨c, u, rfl, hc, hmem⟩ := hspace
  cases trail with
  | nil =>
    refine ends_of_blank (fun h => hl ?_) (by simpa using hc)
    simp only [List.mem_cons, List.not_mem_nil, or_false] at h ⊢
    tauto
  | cons d trail =>
    obtain ⟨y, rfl⟩ := htrail
    simp only [List.mem_cons, List.not_mem_nil, or_false, not_or] at hl
    exact .inr (.inr ⟨by simp [hl], (parts_cons hmem u).agrees.append _, .inl rfl⟩)

/-- Code behind a passage and trivia.  The passage may be read before another text. -/
theorem Reads.significant_run (h : Reads m x w ls .code) (herror : ∀ k ∈ ls, k.kind ≠ .error) {t v : Text}
    (hends : ∀ l, ls.getLast? = some l → Ends l w (t ++ v)) {s : Scan} (hs : s.closed = true)
    (hrun : Scan.free.run t = some s) (hv : s = .free ∨ v = [] ∨ v.BeginsLine) :
    significant m (x ++ (t ++ v)) = ls.filter (!·.kind.isTrivia) ++ significant .code v := by
  rw [(h.exchange herror hends).significant_append, significant_of_closed hs hrun hv]

/-- Code on lines of its own behind a passage and a trail of trivia is read as code.  The passage may be read before
another text that begins with the trail. -/
theorem Reads.significant_break (h : Reads m x w ls .code) (herror : ∀ k ∈ ls, k.kind ≠ .error)
    (hlast : ls.getLast? = some l) (hl : l.kind ∉ [.inlineHtml, .openTag, .whitespace, .lineComment]) {trail : Text}
    (htrail : trail <+: w) {s : Scan} (hs : s.closed = true) (hrun : Scan.free.run trail = some s) (k : Newline) {z : Text}
    (hz : ∀ c ∈ z, TokenTable.isSpace c = true) (v : Text) :
    significant m (x ++ (trail ++ (k.text ++ z ++ v))) = ls.filter (!·.kind.isTrivia) ++ significant .code v := by
  have hbreak : Scan.free.run (trail ++ (k.text ++ z)) = some .free := by
    have hspace : Scan.free.run (k.text ++ z) = some .free :=
      Scan.run_space fun c hc => (List.mem_append.1 hc).elim (k.isSpace_text c) (hz c)
    rw [Scan.run_append, hrun, Option.bind_some, Scan.run_break hs (k.beginsLine_append z), hspace]
  have herror' := herror l (List.mem_of_getLast? hlast)
  simp only [List.mem_cons, List.not_mem_nil, or_false, not_or] at hl
  rw [← List.append_assoc trail]
  refine h.significant_run herror (fun l' hl' => ?_) (s := .free) rfl hbreak (.inl rfl)
  cases hlast.symm.trans hl'
  rw [List.append_assoc trail, List.append_assoc k.text]
  exact ends_of_trail (by simp [hl, herror']) htrail (k.beginsLine_append _)

/-- What is left of a gap behind a trail in which no comment is open changes nothing. -/
theorem significant_lead {gap : Text} (h : Reads .code gap rest ls m) (htrivia : ∀ k ∈ ls, k.kind.isTrivia = true)
    {r : Scan} (hr : r.closed = true) (htrail : Scan.free.run (splitTrail gap).1 = some r) :
    significant .code ((splitTrail gap).2 ++ rest) = significant .code rest := by
  obtain ⟨-, s, hs, hrun, hbehind⟩ := h.exists_run htrivia
  exact significant_of_run hs (Scan.run_splitTrail hrun hr htrail) hbehind

end Lexer

/-! ### Layouts -/

theorem getLast?_gaps {t : Text} {x y : Nat} {spans : List Span} {s : Span} (h : spans.getLast? = some s) :
    (gaps t x y spans).getLast? = some (t.slice s.stop y) := by
  induction spans generalizing x with
  | nil => cases h
  | cons s' spans ih =>
    cases spans with
    | nil =>
      cases h
      rfl
    | cons s'' spans =>
      rw [gaps, gaps, List.getLast?_cons_cons, ← gaps]
      exact ih (by rwa [List.getLast?_cons_cons] at h)

namespace LineLayout

theorem isIndent_indentOf? {leads : List Text} {indent : Text} (h : indentOf? leads = some indent) :
    ∀ c ∈ indent, Text.isIndent c = true := by
  unfold indentOf? at h
  split at h
  · split at h
    · rename_i hall
      cases h
      exact List.all_eq_true.1 hall
    · cases h
  · cases h

/-- The breaks and the indentation of a list. -/
theorem isIndent_ofRegion (t : Text) (region : Span) (spans : List Span) {inner : Text} (newline : Newline)
    (hinner : ∀ c ∈ inner, Text.isIndent c = true) :
    (ofRegion t region spans inner newline).newline = newline ∧
      ∀ c ∈ (ofRegion t region spans inner newline).indent, Text.isIndent c = true := by
  unfold ofRegion
  split
  · exact ⟨rfl, hinner⟩
  · exact ⟨rfl, hinner⟩
  · refine ⟨rfl, fun c (hc : c ∈ (indentOf? _).getD inner) => ?_⟩
    generalize hindent : indentOf? _ = found at hc
    cases found with
    | none => exact hinner c hc
    | some indent => exact isIndent_indentOf? hindent c hc

/-- The tail and the indentation of a list that had elements. -/
theorem ofRegion_of_getLast? (t : Text) (region : Span) {spans : List Span} {s : Span} (inner : Text) (newline : Newline)
    (h : spans.getLast? = some s) (hinner : ∀ c ∈ inner, Text.isIndent c = true) :
    let l := ofRegion t region spans inner newline
    l.leads.isEmpty = false ∧ l.tail = (splitTrail (t.slice s.stop region.stop)).2 ∧ l.newline = newline ∧
      ∀ c ∈ l.indent, Text.isIndent c = true := by
  obtain ⟨hnewline, hindent⟩ := isIndent_ofRegion t region spans newline hinner
  cases spans with
  | nil => cases h
  | cons s' spans =>
    have hlast : (gaps t s'.stop region.stop spans).getLast? = some (t.slice s.stop region.stop) := by
      have hall : (gaps t region.start region.stop (s' :: spans)).getLast? = _ := getLast?_gaps h
      rw [gaps] at hall
      cases hmore : gaps t s'.stop region.stop spans with
      | nil =>
        have hlength := length_gaps t s'.stop region.stop spans
        rw [hmore] at hlength
        cases hlength
      | cons gap more => rwa [hmore, List.getLast?_cons_cons] at hall
    generalize hmore : gaps t s'.stop region.stop spans = more at hlast
    have hne : more ≠ [] := by
      rintro rfl
      cases hlast
    obtain ⟨gap, more, rfl⟩ := List.exists_cons_of_ne_nil hne
    refine ⟨?_, ?_, hnewline, hindent⟩
    · simp only [ofRegion, gaps, hmore]
      rfl
    · simp only [ofRegion, gaps, hmore, hlast]
      rfl

theorem renderOver_append (l : LineLayout) (previous : Option LineEntry) (es : List LineEntry) (e : LineEntry) :
    l.renderOver previous (es ++ [e]) =
      l.renderOver previous es ++ (l.before (es.getLast?.or previous) e ++ (e.text ++ l.behind e)) := by
  induction es generalizing previous with
  | nil => simp [renderOver]
  | cons e' es ih =>
    rw [List.cons_append, renderOver, ih, renderOver]
    have hlast : es.getLast?.or (some e') = (e' :: es).getLast?.or previous := by
      cases hes : es.getLast? with
      | none =>
        rw [List.getLast?_eq_none_iff] at hes
        subst hes
        rfl
      | some e'' =>
        obtain ⟨es', rfl⟩ := List.getLast?_eq_some_iff.1 hes
        rw [← List.cons_append, List.getLast?_concat]
        rfl
    rw [hlast]
    simp only [List.append_assoc]

end LineLayout

/-- A separator is a break and blanks behind it. -/
theorem Slot.exists_separator (newline : Newline) {indent : Text} (h : ∀ c ∈ indent, Text.isIndent c = true)
    (before after : Slot) : ∃ z, before.separator newline indent after = newline.text ++ z ∧
      ∀ c ∈ z, TokenTable.isSpace c = true := by
  refine ⟨_, by rw [separator, List.append_assoc], fun c hc => ?_⟩
  rcases List.mem_append.1 hc with hc | hc
  · split at hc
    · exact newline.isSpace_text c hc
    · cases hc
  · exact (Text.blank_of_isIndent (h c hc)).2

/-! ### Lists -/

namespace Page

variable {α : Type} [Placed α] [BEq α] {G : Ground} {p : Page} {elements : List α} {last w : α} {region : Span}

/-- The first element of a list that had none. -/
theorem lineList_singleton (style : LineStyle α) (outer inner : Text) (w : α) :
    p.lineList style region outer inner [w] [] = (p.arena.text.slice region.start region.stop).trimEnd ++
      (p.newline.text ++ inner ++ (style.inserted inner w ++ (p.newline.text ++ outer))) := by
  have hnone : counterpart? ([] : List α) w = none := by
    unfold counterpart?
    cases origin w <;> rfl
  simp [lineList, LineLayout.ofRegion, gaps, LineLayout.render, LineLayout.renderInto, lineEntry, hnone]

/-- An element behind others. -/
theorem lineList_snoc (hplaced : ∀ a b : α, (a == b) = true → origin a = origin b ∧ span a = span b)
    (style : LineStyle α) (outer : Text) {inner : Text} (hinner : ∀ c ∈ inner, Text.isIndent c = true)
    (hlast : elements.getLast? = some last) (hself : (elements == elements) = true)
    (hsome : ∀ a ∈ elements, (origin a).isSome) (hnodup : (elements.map origin).Nodup)
    (hlines : G.Lines region elements) (hcut : G.Cuts p.arena.text) (hw : counterpart? elements w = none) :
    ∃ indent z : Text, (∀ c ∈ indent, Text.isIndent c = true) ∧ (∀ c ∈ z, TokenTable.isSpace c = true) ∧
      let gap := p.arena.text.slice (span last).stop region.stop
      p.lineList style region outer inner (elements ++ [w]) elements =
        p.arena.text.slice region.start (span last).stop ++
          ((splitTrail gap).1 ++ (p.newline.text ++ z ++ (style.inserted indent w ++ (splitTrail gap).2))) := by
  obtain ⟨e, hspread, hend⟩ := hlines.runs hcut
  -- Without the element the list is printed as its text.
  have hwhole := lineList_of_beq hplaced style outer inner hself hsome hnodup hlines hcut
  have hspan : (elements.map span).getLast? = some (span last) := by
    rw [List.getLast?_map, hlast]
    rfl
  obtain ⟨hleads, htail, hnewline, hindent⟩ := LineLayout.ofRegion_of_getLast? p.arena.text region inner p.newline hspan
    hinner
  simp only [lineList] at hwhole ⊢
  generalize LineLayout.ofRegion p.arena.text region (elements.map span) inner p.newline = l at *
  obtain ⟨before, rfl⟩ := List.getLast?_eq_some_iff.1 hlast
  rw [List.map_append, List.map_singleton, LineLayout.render, hleads, if_neg Bool.false_ne_true]
  rw [LineLayout.render, hleads, if_neg Bool.false_ne_true] at hwhole
  generalize hkept : List.map (p.lineEntry style l.indent (before ++ [last])) (before ++ [last]) = kept at *
  have hstop : (span last).stop = e := hspread.stop_getLast hlast
  have hgap : p.arena.text.slice region.start (span last).stop ++ p.arena.text.slice (span last).stop region.stop =
      p.arena.text.slice region.start region.stop := by
    rw [hstop]
    exact (hspread.runs ⟨hend.1, hend.1, Nat.le_refl e⟩).slice_append hend
  obtain ⟨previous, hprevious⟩ : ∃ previous, kept.getLast? = some previous := by
    rw [← hkept, List.map_append, List.map_singleton, List.getLast?_concat]
    exact ⟨_, rfl⟩
  obtain ⟨z, hz, hspace⟩ := Slot.exists_separator l.newline hindent previous.slot (style.slot w)
  have hentry : p.lineEntry style l.indent (before ++ [last]) w = ⟨none, style.slot w, style.inserted l.indent w⟩ := by
    simp only [lineEntry, hw]
    rfl
  have hbefore : l.before (kept.getLast?.or none) (p.lineEntry style l.indent (before ++ [last]) w) =
      p.newline.text ++ z := by
    rw [hentry, hprevious, ← hnewline, ← hz]
    rcases previous with ⟨_ | _, _, _⟩ <;> rfl
  refine ⟨l.indent, z, hindent, hspace, ?_⟩
  rw [LineLayout.renderOver_append, hbefore, hentry]
  simp only [LineLayout.behind, List.append_nil]
  -- The trail is what the list without its tail ends with.
  have hhead : l.renderOver none kept = p.arena.text.slice region.start (span last).stop ++
      (splitTrail (p.arena.text.slice (span last).stop region.stop)).1 := by
    rw [← hgap, ← splitTrail_append (p.arena.text.slice (span last).stop region.stop), ← List.append_assoc, htail]
      at hwhole
    exact List.append_cancel_right hwhole
  rw [hhead, htail]
  simp only [List.append_assoc]

end Page

end Graft
