/-
Texts whose lines are placed anew.

Moving the lines of a text to another indentation exchanges the breaks between them and the blanks behind these breaks,
whatever lexeme they stand in.  Comments stay comments then, and a text in which every other lexeme stands on one line
keeps its lexemes.

* `Moved`, `moved_reindent` — a text, and the text with its lines moved;
* `Scan.run_moved` — trivia stay trivia;
* `Lexer.Steady`, `Lexer.Reads.splits_moved` — steady lexemes are read alike in both texts.
-/
import Graft.Print.Indent
import Graft.Proofs.Text.LineBreak
import Graft.Proofs.Token.Trivia

namespace Graft

/-! ### Moved lines -/

/-- The second text is the first one with other breaks, and other blanks behind them. -/
inductive Moved : Text → Text → Prop where
  | nil : Moved [] []
  | cons (c : Char) {t u : Text} (h : Moved t u) : Moved (c :: t) (c :: u)
  | gap (k k' : Newline) {x x' t u : Text} (hx : ∀ c ∈ x, Text.isBlank c = true)
      (hx' : ∀ c ∈ x', TokenTable.isSpace c = true) (h : Moved t u) : Moved (k.text ++ x ++ t) (k'.text ++ x' ++ u)

namespace Newline

theorem isBlank_text (k : Newline) : ∀ c ∈ k.text, Text.isBlank c = true :=
  List.all_eq_true.1 (by cases k <;> decide)

theorem isSpace_text (k : Newline) : ∀ c ∈ k.text, TokenTable.isSpace c = true :=
  List.all_eq_true.1 (by cases k <;> decide)

/-- A break begins with a blank. -/
theorem exists_cons (k : Newline) : ∃ c t, k.text = c :: t ∧ TokenTable.isSpace c = true := by
  cases k with
  | lf => exact ⟨'\n', [], rfl, rfl⟩
  | crlf => exact ⟨'\r', ['\n'], rfl, rfl⟩

theorem beginsLine_append (k : Newline) (t : Text) : (k.text ++ t).BeginsLine := by
  cases k with
  | lf => exact .inl rfl
  | crlf => exact .inr ⟨t, rfl⟩

end Newline

namespace Moved

variable {s t u v x : Text}

theorem refl (t : Text) : Moved t t := by
  induction t with
  | nil => exact .nil
  | cons c t ih => exact .cons c ih

theorem append (h : Moved t u) (h' : Moved s v) : Moved (t ++ s) (u ++ v) := by
  induction h with
  | nil => exact h'
  | cons c _ ih => exact .cons c ih
  | gap k k' hx hx' _ ih =>
    rw [List.append_assoc, List.append_assoc (_ ++ _)]
    exact .gap k k' hx hx' ih

theorem eq_nil (h : Moved [] u) : u = [] := by
  generalize ht : ([] : Text) = t at h
  cases h with
  | nil => rfl
  | cons => cases ht
  | gap k =>
    obtain ⟨c, r, hk, -⟩ := k.exists_cons
    rw [hk] at ht
    cases ht

/-- A moved text falls apart where no blank begins. -/
theorem split (hs : ∀ c ∈ s.head?, Text.isBlank c = false) (h : Moved (t ++ s) u) :
    ∃ t' s', u = t' ++ s' ∧ Moved t t' ∧ Moved s s' := by
  generalize hts : t ++ s = ts at h
  induction h generalizing t with
  | nil =>
    obtain ⟨rfl, rfl⟩ := List.append_eq_nil_iff.1 hts
    exact ⟨[], [], rfl, .nil, .nil⟩
  | @cons c ts u h ih =>
    cases t with
    | nil =>
      subst hts
      exact ⟨[], c :: u, rfl, .nil, .cons c h⟩
    | cons d t =>
      obtain ⟨rfl, htail⟩ := List.cons.inj hts
      obtain ⟨t', s', rfl, ht, hs'⟩ := ih htail
      exact ⟨d :: t', s', rfl, .cons d ht, hs'⟩
  | @gap k k' x x' ts u hx hx' h ih =>
    rcases List.append_eq_append_iff.1 hts with ⟨m, hgap, rfl⟩ | ⟨m, rfl, htail⟩
    · cases m with
      | nil =>
        refine ⟨k'.text ++ x', u, rfl, ?_, h⟩
        rw [List.append_nil] at hgap
        have hmoved := Moved.gap k k' hx hx' .nil
        rwa [List.append_nil, List.append_nil, hgap] at hmoved
      | cons d m =>
        -- The second part would begin with a blank of the gap.
        have hd : d ∈ k.text ++ x := by
          rw [hgap]
          simp
        have hblank := (List.mem_append.1 hd).elim (k.isBlank_text d) (hx d)
        rw [hs d rfl] at hblank
        cases hblank
    · obtain ⟨t', s', rfl, ht, hs'⟩ := ih htail.symm
      exact ⟨k'.text ++ x' ++ t', s', (List.append_assoc ..).symm, .gap k k' hx hx' ht, hs'⟩

/-- No part of a line is moved but the blanks that it begins with. -/
theorem prefix_eq (ht : '\n' ∉ t) (hlast : t.getLast? = some '\r' → s.head? ≠ some '\n') (h : Moved (t ++ s) u) :
    ∃ s', u = t ++ s' ∧ Moved s s' := by
  induction t generalizing u with
  | nil => exact ⟨u, rfl, h⟩
  | cons c t ih =>
    generalize hts : c :: t ++ s = ts at h
    cases h with
    | nil => cases hts
    | cons d h =>
      obtain ⟨rfl, rfl⟩ := List.cons.inj hts
      have hlast' : t.getLast? = some '\r' → s.head? ≠ some '\n' := by
        intro hr
        cases t with
        | nil => cases hr
        | cons e t => exact hlast (by rwa [List.getLast?_cons_cons])
      obtain ⟨s', rfl, hs'⟩ := ih (fun hmem => ht (List.mem_cons_of_mem c hmem)) hlast' h
      exact ⟨s', rfl, hs'⟩
    | gap k k' hx hx' h =>
      cases k with
      | lf =>
        obtain ⟨rfl, -⟩ := List.cons.inj hts
        exact absurd List.mem_cons_self ht
      | crlf =>
        obtain ⟨rfl, htail⟩ := List.cons.inj hts
        cases t with
        | nil =>
          have hbreak : s.head? = some '\n' := congrArg List.head? htail
          exact absurd hbreak (hlast rfl)
        | cons d t =>
          obtain ⟨rfl, -⟩ := List.cons.inj htail
          exact absurd (List.mem_cons_of_mem _ List.mem_cons_self) ht

/-- A moved text begins as it did, or with another blank. -/
theorem head? (h : Moved t u) (w : Text) :
    (u ++ w).head? = (t ++ w).head? ∨ (u ++ w).head?.any TokenTable.isSpace = true := by
  cases h with
  | nil => exact .inl rfl
  | cons => exact .inl rfl
  | gap k k' =>
    obtain ⟨c, r, hk, hc⟩ := k'.exists_cons
    rw [hk]
    exact .inr hc

/-- Both texts agree up to the first break that was exchanged. -/
theorem agrees (h : Moved t u) : Lexer.Agrees t u := by
  induction h with
  | nil => exact Lexer.parts_nil.agrees
  | cons c _ ih => exact ih.append [c]
  | gap k k' =>
    refine Lexer.Parts.agrees (.inl fun c hc => ?_)
    cases k' <;> cases hc <;> decide

end Moved

/-! ### Reindented texts -/

/-- A part of a line without its carriage return is a part of the line without it. -/
theorem Text.exists_of_stripCR {line x y : Text} (h : line.stripCR = x ++ y) : ∃ z, line = x ++ z ∧ z.stripCR = y := by
  by_cases hline : line.getLast? = some '\r'
  · obtain ⟨t, rfl⟩ := List.getLast?_eq_some_iff.1 hline
    rw [stripCR, if_pos hline, List.dropLast_concat] at h
    exact ⟨y ++ ['\r'], by rw [h, List.append_assoc], by rw [stripCR, if_pos (by simp), List.dropLast_concat]⟩
  · rw [stripCR, if_neg hline] at h
    refine ⟨y, h, if_neg fun hy => hline ?_⟩
    rw [h, List.getLast?_append, hy]
    rfl

/-- What a carriage return is cut off is a break without its line feed. -/
theorem Text.exists_newline (line : Text) : ∃ k : Newline, line ++ ['\n'] = line.stripCR ++ k.text := by
  by_cases hline : line.getLast? = some '\r'
  · obtain ⟨t, rfl⟩ := List.getLast?_eq_some_iff.1 hline
    exact ⟨.crlf, by rw [stripCR, if_pos hline, List.dropLast_concat, List.append_assoc]; rfl⟩
  · exact ⟨.lf, by rw [stripCR, if_neg hline]; rfl⟩

theorem Text.blank_of_isIndent {c : Char} (h : isIndent c = true) : isBlank c = true ∧ TokenTable.isSpace c = true := by
  simp only [isIndent, Bool.or_eq_true, beq_iff_eq] at h
  rcases h with rfl | rfl <;> decide

theorem Text.splitOn_eq (sep : Char) (t : Text) :
    ∃ line lines, splitOn sep t = line :: lines ∧ t = line ++ lines.flatMap (sep :: ·) := by
  induction t with
  | nil => exact ⟨[], [], rfl, rfl⟩
  | cons c t ih =>
    obtain ⟨line, lines, hsplit, rfl⟩ := ih
    rw [splitOn, hsplit]
    by_cases hc : c = sep
    · rw [if_pos hc, hc]
      exact ⟨[], line :: lines, rfl, rfl⟩
    · rw [if_neg hc]
      exact ⟨c :: line, lines, rfl, rfl⟩

section Lines

variable {from_ to_ : Text} (newline : Newline) (hfrom : ∀ c ∈ from_, Text.isIndent c = true)
  (hto : ∀ c ∈ to_, Text.isIndent c = true)

include hfrom hto

/-- A line behind a break gets another break and other blanks before what it holds, and loses its carriage return. -/
theorem exists_reindentLine (line : Text) : ∃ x x' z, line = x ++ z ∧
    reindentLine from_ to_ newline line = newline.text ++ x' ++ z.stripCR ∧ (∀ c ∈ x, Text.isBlank c = true) ∧
      (∀ c ∈ x', TokenTable.isSpace c = true) := by
  have hsplit : ∃ x x' y, line.stripCR = x ++ y ∧ reindentLine from_ to_ newline line = newline.text ++ x' ++ y ∧
      (∀ c ∈ x, Text.isBlank c = true) ∧ (∀ c ∈ x', TokenTable.isSpace c = true) := by
    by_cases hall : line.stripCR.all Text.isBlank = true
    · refine ⟨line.stripCR, [], [], (List.append_nil _).symm, ?_, List.all_eq_true.1 hall, nofun⟩
      rw [reindentLine, if_pos hall, List.append_nil, List.append_nil]
    · have hplaced : reindentLine from_ to_ newline line =
          newline.text ++ to_ ++ (Text.strip? from_ line.stripCR).getD line.stripCR.trimStart := by
        rw [reindentLine, if_neg hall, List.append_assoc]
      cases hstrip : Text.strip? from_ line.stripCR with
      | some y =>
        rw [hstrip] at hplaced
        exact ⟨from_, to_, y, Text.strip?_eq_some hstrip, hplaced, fun c hc => (Text.blank_of_isIndent (hfrom c hc)).1,
          fun c hc => (Text.blank_of_isIndent (hto c hc)).2⟩
      | none =>
        rw [hstrip] at hplaced
        exact ⟨line.stripCR.takeWhile Text.isBlank, to_, line.stripCR.trimStart,
          List.takeWhile_append_dropWhile.symm, hplaced, fun c hc => List.all_eq_true.1 List.all_takeWhile c hc,
          fun c hc => (Text.blank_of_isIndent (hto c hc)).2⟩
  obtain ⟨x, x', y, hline, hplaced, hx, hx'⟩ := hsplit
  obtain ⟨z, hz, rfl⟩ := Text.exists_of_stripCR hline
  exact ⟨x, x', z, hz, hplaced, hx, hx'⟩

/-- Moving the lines of a text to another indentation exchanges breaks and the blanks behind them.  The first line
stays where it is. -/
theorem moved_reindent {t : Text} (hlast : t.getLast? ≠ some '\r') : Moved t (reindent from_ to_ newline t) := by
  obtain ⟨line, lines, hsplit, rfl⟩ := t.splitOn_eq '\n'
  rw [reindent, hsplit]
  show Moved _ (line.stripCR ++ lines.flatMap (reindentLine from_ to_ newline))
  clear hsplit
  induction lines generalizing line with
  | nil =>
    simp only [List.flatMap_nil, List.append_nil] at hlast ⊢
    rw [Text.stripCR, if_neg hlast]
    exact .refl line
  | cons next lines ih =>
    obtain ⟨x, x', z, rfl, hplaced, hx, hx'⟩ := exists_reindentLine newline hfrom hto next
    obtain ⟨k, hk⟩ := line.exists_newline
    have hsplit : line ++ ((x ++ z) :: lines).flatMap ('\n' :: ·) =
        line.stripCR ++ (k.text ++ x ++ (z ++ lines.flatMap ('\n' :: ·))) := by
      calc line ++ ((x ++ z) :: lines).flatMap ('\n' :: ·)
          = line ++ ['\n'] ++ (x ++ (z ++ lines.flatMap ('\n' :: ·))) := by simp
        _ = line.stripCR ++ (k.text ++ x ++ (z ++ lines.flatMap ('\n' :: ·))) := by rw [hk]; simp
    have hrest : (z ++ lines.flatMap ('\n' :: ·)).getLast? ≠ some '\r' := by
      intro h
      rw [hsplit, List.getLast?_append, List.getLast?_append, h] at hlast
      exact hlast rfl
    rw [hsplit, List.flatMap_cons, hplaced, List.append_assoc (newline.text ++ x')]
    exact (Moved.refl line.stripCR).append (.gap k newline hx hx' (ih z hrest))

end Lines

/-! ### Moved trivia -/

namespace Scan

/-- A break closes what lasts as long as the line, and leaves a block comment open. -/
theorem run_newline (s : Scan) (k : Newline) : s.run k.text = s.step '\n' := by
  cases k <;> cases s <;> rfl

theorem step_newline {s s' : Scan} (h : s.step '\n' = some s') : s' = .free ∨ s' = .block := by
  cases s <;> cases h <;> simp

/-- Blanks change nothing behind a break. -/
theorem run_blank {s s' : Scan} (hs : s = .free ∨ s = .block) {x : Text} (hx : ∀ c ∈ x, Text.isBlank c = true)
    (h : s.run x = some s') : s' = s := by
  induction x with
  | nil =>
    cases h
    rfl
  | cons c x ih =>
    obtain ⟨hc, hx⟩ := List.forall_mem_cons.1 hx
    rw [run_cons] at h
    have hstep : s.step c = none ∨ s.step c = some s := by
      rcases hs with rfl | rfl
      · rw [step]
        split
        · exact .inr rfl
        · split
          · rename_i hslash
            subst hslash
            cases hc
          · split
            · rename_i hsharp
              subst hsharp
              cases hc
            · exact .inl rfl
      · rw [step]
        split
        · rename_i hstar
          subst hstar
          cases hc
        · exact .inr rfl
    rcases hstep with hstep | hstep
    · rw [hstep] at h
      cases h
    · rw [hstep] at h
      exact ih hx h

theorem run_blank_of_space {s : Scan} (hs : s = .free ∨ s = .block) {x : Text}
    (hx : ∀ c ∈ x, TokenTable.isSpace c = true) : s.run x = some s := by
  rcases hs with rfl | rfl
  · exact run_space hx
  · induction x with
    | nil => rfl
    | cons c x ih =>
      obtain ⟨hc, hx⟩ := List.forall_mem_cons.1 hx
      have hstar : c ≠ '*' := by
        rintro rfl
        cases hc
      rw [run_cons, step, if_neg hstar]
      exact ih hx

/-- Moved trivia lead to the same state. -/
theorem run_moved {t u : Text} (h : Moved t u) {s s' : Scan} (ht : s.run t = some s') : s.run u = some s' := by
  induction h generalizing s with
  | nil => exact ht
  | cons c _ ih =>
    rw [run_cons] at ht ⊢
    obtain ⟨r, hr, ht⟩ := Option.bind_eq_some_iff.1 ht
    rw [hr]
    exact ih ht
  | gap k k' hx hx' _ ih =>
    rw [run_append, run_append, run_newline] at ht ⊢
    obtain ⟨r, hr, ht⟩ := Option.bind_eq_some_iff.1 ht
    obtain ⟨b, hb, hr⟩ := Option.bind_eq_some_iff.1 hr
    have hstate := step_newline hb
    cases run_blank hstate hx hr
    rw [hb, Option.bind_some, run_blank_of_space hstate hx']
    exact ih ht

end Scan

/-! ### Moved code -/

namespace Lexer

/-- The lexeme is trivia, or it stands on one line, and in code no blank begins it. -/
def Steady (l : Lexeme) : Prop :=
  l.kind.isTrivia = true ∨
    ('\n' ∉ l.text ∧ (l.kind ≠ .inlineHtml → l.text.head?.any Text.isBlank = false))

instance (l : Lexeme) : Decidable (Steady l) := inferInstanceAs (Decidable (_ ∨ _))

/-- No line break is cut behind a lexeme that matters. -/
theorem head?_behind_lexeme {m m' : Mode} {l : Lexeme} {t : Text} (hne : l.text ≠ []) (h : next m (l.text ++ t) = (l, m'))
    (herror : l.kind ≠ .error) (htrivia : l.kind.isTrivia = false) :
    l.text.getLast? = some '\r' → t.head? ≠ some '\n' := by
  intro hlast
  have hlexeme : (next m (l.text ++ t)).1 = l := congrArg Prod.fst h
  cases m with
  | html =>
    simp only [next] at hlexeme
    cases htag : openTag? (l.text ++ t) with
    | some n =>
      rw [htag] at hlexeme
      have htext : (l.text ++ t).take n = l.text := congrArg Lexeme.text hlexeme
      exact absurd (by rwa [htext]) (getLast?_openTag htag)
    | none =>
      rw [htag] at hlexeme
      have htext : html (l.text ++ t) = l.text := congrArg Lexeme.text hlexeme
      have hdrop := head?_drop_html (l.text ++ t)
      rwa [htext, List.drop_left] at hdrop
  | code =>
    have hlexeme : lexeme (l.text ++ t) = l := hlexeme
    refine absurd hlast ?_
    have hend := getLast?_lexeme (t := l.text ++ t) (by simp [hne]) (by rwa [hlexeme]) (by rwa [hlexeme])
    rwa [hlexeme] at hend

/-- A lexeme outside of the code is read alike when what follows it is moved, provided that the tag behind text is. -/
theorem next_html_of_moved {l : Lexeme} {x x' w : Text} {m : Mode} (hne : l.text ≠ [])
    (h : next .html (l.text ++ (x ++ w)) = (l, m)) (hx : Moved x x')
    (htag : m = .html → x ≠ [] → (openTag? (x ++ w)).isSome → (openTag? (x' ++ w)).isSome) :
    next .html (l.text ++ (x' ++ w)) = (l, m) := by
  rcases kind_of_next_html h with ⟨hk, -⟩ | ⟨hk, -, hmode⟩
  · refine next_html_of_openTag h hk fun hlength => ?_
    have hspace := head?_behind_openTag h hk hlength
    rcases hx.head? w with heq | hblank
    · rwa [heq]
    · cases hhead : (x' ++ w).head? with
      | none => rfl
      | some c =>
        rw [hhead] at hblank
        exact hblank
  · by_cases hnil : x = []
    · subst hnil
      rwa [hx.eq_nil]
    · have hbehind := openTag?_behind_inlineHtml h hk (by simp [hnil])
      exact next_html_of_inlineHtml h hne hk (by simp [hnil]) (htag hmode hnil hbehind)

/-- A text that is read as an opening tag first begins with one. -/
theorem openTag?_of_significant {t : Text} {k : Lexeme} {ks v : List Lexeme} (hk : k.kind = .openTag)
    (h : significant .html t = (k :: ks).filter (!·.kind.isTrivia) ++ v) : (openTag? t).isSome := by
  rw [List.filter_cons_of_pos (by rw [hk]; rfl), List.cons_append] at h
  have hne : t ≠ [] := by
    rintro rfl
    cases h
  rcases kind_of_next_html (t := t) (l := (next .html t).1) (m := (next .html t).2) rfl with ⟨-, htag⟩ | ⟨hhtml, -, -⟩
  · exact htag
  · rw [significant, lexemesOf_cons .html hne, List.filter_cons_of_pos (by rw [hhtml]; rfl)] at h
    rw [(List.cons.inj h).1, hk] at hhtml
    cases hhtml

/-- The lexemes of a passage, when all of them but trivia are steady, are read alike when the passage is moved.  Trivia
that stand before it in the code are moved with it. -/
theorem Reads.splits_moved {m m' : Mode} {x w : Text} {ls : List Lexeme} (h : Reads m x w ls m')
    (herror : ∀ l ∈ ls, l.kind ≠ .error) (hsteady : ∀ l ∈ ls, Steady l) {t u : Text} {s : Scan}
    (hmoved : Moved (t ++ x) u) (hcode : m = .html → t = []) (ht : Scan.free.run t = some s) (hs : s.closed = true)
    (hbehind : s = .free ∨ x ++ w = [] ∨ (x ++ w).head? = some '\n') :
    Splits m u w (ls.filter (!·.kind.isTrivia)) m' := by
  induction h generalizing t u s with
  | @nil m w =>
    rw [List.append_nil] at hmoved
    cases m with
    | html =>
      obtain rfl := hcode rfl
      rw [hmoved.eq_nil]
      exact .nil
    | code => exact splits_of_run hs (Scan.run_moved hmoved ht) hbehind
  | @cons m m' m'' l x w ls hl hnext hrest ih =>
    obtain ⟨hsteady', hls⟩ := List.forall_mem_cons.1 hsteady
    obtain ⟨herror', hlserror⟩ := List.forall_mem_cons.1 herror
    rw [List.append_assoc] at hbehind
    -- A lexeme that matters, behind what was moved before it.
    have hstep : ∀ {x'}, l.kind.isTrivia = false → Moved x x' → next m (l.text ++ (x' ++ w)) = (l, m') →
        Splits m (l.text ++ x') w ((l :: ls).filter (!·.kind.isTrivia)) m'' := by
      intro x' hk hx hnext'
      rw [List.filter_cons_of_pos (by simpa using hk)]
      exact (splits_of_next hl hnext' hk).append
        (ih hlserror hls (t := []) hx (fun _ => rfl) rfl (s := .free) rfl (.inl rfl))
    cases m with
    | html =>
      obtain rfl := hcode rfl
      have hkind := kind_of_next_html hnext
      have hk : l.kind.isTrivia = false := by rcases hkind with ⟨hk, -⟩ | ⟨hk, -, -⟩ <;> rw [hk] <;> rfl
      have hline := (hsteady'.resolve_left (by simp [hk])).1
      obtain ⟨x', rfl, hx⟩ := Moved.prefix_eq hline
        (fun hlast hhead => head?_behind_lexeme hl hnext herror' hk hlast (by simp [hhead])) hmoved
      refine hstep hk hx (next_html_of_moved hl hnext hx fun hmode hne htag => ?_)
      -- The tag is the first lexeme behind the text, in both texts.
      subst hmode
      have hboth := (ih hlserror hls (t := []) hx (fun _ => rfl) rfl (s := .free) rfl (.inl rfl)).significant
      cases ls with
      | nil =>
        cases hrest
        exact absurd rfl hne
      | cons k ls => exact openTag?_of_significant (hrest.openTag?_iff_kind.1 htag) hboth
    | code =>
      have hlexeme : lexeme (l.text ++ (x ++ w)) = l := congrArg Prod.fst hnext
      by_cases hk : l.kind.isTrivia = true
      · -- Trivia are put to those before.
        obtain rfl := next_of_isTrivia hnext hk
        obtain ⟨s', hs', hrun', hbehind'⟩ := exists_run_lexeme hl hk hlexeme
        rw [← List.append_assoc] at hmoved
        rw [List.filter_cons_of_neg (by simp [hk])]
        refine ih hlserror hls hmoved nofun ?_ hs' hbehind'
        rw [Scan.run_append, ht, Option.bind_some, Scan.run_behind hs hl hbehind, hrun']
      · have hk : l.kind.isTrivia = false := by simpa using hk
        obtain ⟨hline, hhead⟩ := hsteady'.resolve_left (by simp [hk])
        have hkind := (kind_of_next_code hnext hl herror').1
        simp only [List.mem_cons, List.not_mem_nil, or_false, not_or] at hkind
        obtain ⟨c, y, hcons⟩ := List.exists_cons_of_ne_nil hl
        have hfree : s = .free := by
          refine hbehind.resolve_right ?_
          rw [hcons] at hline ⊢
          rintro (hnil | hbreak)
          · cases hnil
          · cases hbreak
            exact hline List.mem_cons_self
        -- The trivia before it and what follows it are moved on their own.
        have hhead' : ∀ d ∈ (l.text ++ x).head?, Text.isBlank d = false := by
          have h := hhead hkind.1
          rw [hcons] at h ⊢
          rintro d ⟨⟩
          exact h
        obtain ⟨t', y', rfl, ht', hy⟩ := hmoved.split hhead'
        obtain ⟨x', rfl, hx⟩ := hy.prefix_eq hline
          fun hlast hbreak => head?_behind_lexeme hl hnext herror' hk hlast (by simp [hbreak])
        have hends : Ends l (x ++ w) (x' ++ w) := by
          refine .inr (.inr ⟨by simp [hkind, herror'], (hx.append (.refl w)).agrees, ?_⟩)
          rcases hx.head? w with heq | hspace
          · exact .inl heq
          · refine .inr (.inr ⟨fun h => ?_, .inl hspace⟩)
            simp only [List.mem_cons, List.not_mem_nil, or_false] at h
            rcases h with h | h <;> rw [h] at hk <;> cases hk
        exact (splits_of_run (s := .free) rfl (Scan.run_moved ht' (by rw [ht, hfree])) (.inl rfl)).append
          (hstep hk hx (next_of_ends hnext hl herror' hends))

end Lexer

end Graft
