/-
Texts that are read into an arena, in two places.

The statements of a file lie within the text that was read, so that a relocation which leaves that text alone leaves
them alone.  The snippet of a method that is read again, behind more text and with more ids drawn, gives the same
method, relocated.

* `Arena.relocate_stmts_parseFile`, `Arena.relocate_parseMethod` — what was read lies within the text;
* `Arena.parseMethod_link` — a method that is read in two places.
-/
import Graft.Proofs.Reading.Sends
import Graft.Proofs.Reading.Source

namespace Graft

/-! ### Where marks stand -/

/-- Marks that describe the ground stand behind one another up to the end. -/
theorem Ground.Ahead.within {G : Ground} {eof e : Nat} {ms : List Mark} (h : G.Ahead eof e ms) :
    e ≤ eof ∧ ∀ m ∈ ms, e ≤ m.lead ∧ m.lead ≤ eof ∧ e ≤ m.token.start ∧ m.token.start < m.token.stop ∧
      m.token.stop ≤ eof := by
  induction ms generalizing e with
  | nil => exact ⟨G.le_of_blank h, nofun⟩
  | cons m ms ih =>
    obtain ⟨hlead, hstart, htoken, hrest⟩ := h
    obtain ⟨hle, hms⟩ := ih hrest
    have h₁ := G.le_of_blank hlead
    have h₂ := G.le_of_blank hstart
    have h₃ := G.start_lt_stop htoken
    refine ⟨by omega, fun n hn => ?_⟩
    rcases List.mem_cons.1 hn with rfl | hn
    · exact ⟨h₁, by omega, by omega, h₃, hle⟩
    · have := hms n hn
      omega

/-- The transport that leaves the offsets from `lo` to `hi` where they are. -/
def Transport.still (φ : Relocation) (lo hi : Nat) (hid : φ.id = id)
    (hspan : ∀ x y, lo ≤ x → x ≤ hi → lo ≤ y → y ≤ hi → φ.span ⟨x, y⟩ = ⟨x, y⟩) : Transport where
  map := φ
  offset x := x
  Seen x := lo ≤ x ∧ x ≤ hi
  Spot _ := True
  base := 0
  span_eq hx hy := hspan _ _ hx.1 hx.2 hy.1 hy.2
  id_succ _ := by simp only [hid, id_eq]

/-- A state that stands between two offsets is where it is. -/
theorem Transport.states_still {φ : Relocation} {lo hi : Nat} (hid : φ.id = id)
    (hspan : ∀ x y, lo ≤ x → x ≤ hi → lo ≤ y → y ≤ hi → φ.span ⟨x, y⟩ = ⟨x, y⟩) {G : Ground} {s : ParseState}
    (hs : G.On s) (hlo : lo ≤ s.cursor.prevEnd) (hhi : s.cursor.eof ≤ hi) :
    (Transport.still φ lo hi hid hspan).States s s := by
  obtain ⟨hle, hms⟩ := hs.within
  have hseen : ∀ {x}, s.cursor.prevEnd ≤ x → x ≤ s.cursor.eof → (Transport.still φ lo hi hid hspan).At x x :=
    fun h h' => ⟨⟨Nat.le_trans hlo h, Nat.le_trans h' hhi⟩, rfl⟩
  refine ⟨⟨?_, fun m hm => ?_, hseen (Nat.le_refl _) hle, hseen hle (Nat.le_refl _), trivial⟩,
    Nat.zero_le _, by simp only [still, hid, id_eq]⟩
  · exact (List.map_id s.cursor.ahead).symm
  · obtain ⟨h₁, h₂, h₃, h₄, h₅⟩ := hms m hm
    exact ⟨⟨(hseen h₃ (by omega)).1, hseen (by omega) h₅, fun _ => hseen (by omega) (by omega), trivial⟩,
      (hseen h₁ h₂).1⟩

/-- The margin in the second place. -/
def Transport.margin (T : Transport) (m : Margin) : Margin := ⟨m.lead.map T.offset, m.freshLine⟩

/-- Marks do not depend on where the tokens stand. -/
theorem Transport.marks_token (T : Transport) (m : Margin) (ts : List Token) :
    marks (T.margin m) (ts.map T.token) = (marks m ts).map T.mark := by
  induction ts generalizing m with
  | nil => rfl
  | cons t ts ih =>
    have hkind : (T.token t).kind = t.kind := rfl
    have hpush : (T.margin m).push (T.token t) = T.margin (m.push t) := by
      simp only [Margin.push, margin, hkind, Option.isSome_map]
      split
      · rfl
      · split
        · rfl
        · split <;> rfl
    simp only [List.map_cons, marks, hkind]
    split
    · exact ih .afterTag
    · split
      · rw [hpush, ih]
      · simp only [List.map_cons, mark, List.cons.injEq, Mark.mk.injEq, true_and]
        refine ⟨?_, ih .afterToken⟩
        cases h : m.lead <;> simp [margin, h, token]

namespace Arena

variable {φ : Relocation} {a a' : Arena} {t : Text}

/-! ### What was read -/

/-- The statements of a file lie behind the start of the code. -/
theorem relocate_stmts_parseFile {f : File} (lo : Nat) (h : a.parseFile t = (.ok f, a')) (hid : φ.id = id)
    (hlo : lo ≤ ((a.push t).codeStart (a.nextSource t)).2)
    (hspan : ∀ x y, lo ≤ x → x ≤ a.text.size + t.size → lo ≤ y → y ≤ a.text.size + t.size → φ.span ⟨x, y⟩ = ⟨x, y⟩) :
    f.stmts.map (TopStmt.relocate φ) = f.stmts := by
  obtain ⟨start, z, hcode, -, hprev, hon⟩ := a.exists_start t
  rw [hcode] at hlo
  simp only [parseFile, parseSource] at h
  split at h
  · cases h
  · simp only [hcode] at h
    have hstates := Transport.states_still hid hspan hon
      (by rw [hprev]; exact hlo) (Nat.le_refl _)
    have hrun := Parser.tracks_file (a.nextSource t).span (a.nextSource t).span z z _ _ hstates
    split at h
    · rename_i g st hg
      cases h
      rw [hg] at hrun
      cases hrun with
      | ok hfg => exact hfg.1.symm
    · cases h

/-! ### Snippets of methods -/

/-- The code of a snippet begins behind its tag. -/
theorem exists_lex_wrapMethod (code : Text) : ∃ ts, Lexer.lex (wrapMethod code) = ⟨.openTag, 0, "<?php".toList⟩ :: ts :=
  ⟨_, rfl⟩

theorem codeStart_wrapMethod (a : Arena) (code : Text) :
    (a.push (wrapMethod code)).codeStart (a.nextSource (wrapMethod code)) =
      ((a.nextSource (wrapMethod code)).first + 1, a.text.size + 5) := by
  obtain ⟨ts, hts⟩ := exists_lex_wrapMethod code
  simp [codeStart, a.tokens_nextSource, tokensOf, hts, Token.shift, Token.stop]
  rfl

/-- The first method that is declared is found in both places. -/
theorem firstMethod?_relocate {f g : File} (h : g.stmts = f.stmts.map (TopStmt.relocate φ)) :
    firstMethod? g = (firstMethod? f).map (Method.relocate φ) := by
  have hclass : ∀ s : TopStmt, (s.relocate φ).plain?.bind Stmt.classLike? =
      (s.plain?.bind Stmt.classLike?).map (ClassLike.relocate φ) := by
    intro s
    cases s with
    | inside n => rfl
    | plain s => cases s <;> rfl
  have hmember : ∀ c : ClassLike, (c.relocate φ).members.findSome? Member.method? =
      (c.members.findSome? Member.method?).map (Method.relocate φ) :=
    fun c => findSome?_map Member.method?_relocate c.members
  rw [firstMethod?, h, filterMap_map hclass, findSome?_map hmember]
  rfl

/-- The ids of an element are among those of the list. -/
theorem origins_sublist {α : Type} {f : α → List (Option NodeId)} {x : α} {xs : List α} (hx : x ∈ xs) :
    (f x).Sublist (xs.flatMap f) := by
  rw [List.flatMap_def]
  exact List.sublist_flatten_of_mem (List.mem_map_of_mem hx)

/-- The method that is found is a member of a class of the file. -/
theorem mem_of_firstMethod? {f : File} {m : Method} (h : firstMethod? f = some m) :
    ∃ c : ClassLike, .plain (.classLike c) ∈ f.stmts ∧ .method m ∈ c.members := by
  obtain ⟨c, hc, hm⟩ := List.exists_of_findSome?_eq_some h
  obtain ⟨s, hs, hsc⟩ := List.mem_filterMap.1 hc
  obtain ⟨t, ht, htc⟩ := Option.bind_eq_some_iff.1 hsc
  obtain ⟨member, hmember, hmm⟩ := List.exists_of_findSome?_eq_some hm
  refine ⟨c, ?_, ?_⟩
  · cases s with
    | inside n => cases ht
    | plain u =>
      cases ht
      cases t with
      | classLike d =>
        cases htc
        exact hs
      | _ => cases htc
  · cases member with
    | method n =>
      cases hmm
      exact hmember
    | _ => cases hmm

/-- The ids of the method that is found are ids of the file, in the same order. -/
theorem origins_firstMethod? {f : File} {m : Method} (h : firstMethod? f = some m) : m.origins.Sublist f.origins := by
  obtain ⟨c, hc, hm⟩ := mem_of_firstMethod? h
  have hmc : m.origins.Sublist c.origins :=
    (origins_sublist (f := Member.origins) hm).trans (List.sublist_append_right _ _)
  have hcf : c.origins.Sublist f.origins :=
    (origins_sublist (f := TopStmt.origins) hc).trans (List.sublist_append_right _ _)
  exact hmc.trans hcf

theorem parseMethod_eq_ok {code : Text} {m : Option Method} (h : a.parseMethod code = (.ok m, a')) :
    ∃ f, a.parseFile (wrapMethod code) = (.ok f, a') ∧ firstMethod? f = m := by
  unfold parseMethod at h
  split at h
  · rename_i f b hf
    cases h
    exact ⟨f, hf, rfl⟩
  · cases h

/-- A method that was read from a snippet lies behind the tag of the snippet. -/
theorem relocate_parseMethod {code : Text} {m : Method} (h : a.parseMethod code = (.ok (some m), a')) (hid : φ.id = id)
    (hspan : ∀ x y, a.text.size < x → x ≤ a.text.size + (wrapMethod code).size →
      a.text.size < y → y ≤ a.text.size + (wrapMethod code).size → φ.span ⟨x, y⟩ = ⟨x, y⟩) :
    m.relocate φ = m := by
  obtain ⟨f, hf, hm⟩ := parseMethod_eq_ok h
  have hstmts := relocate_stmts_parseFile (a.text.size + 5) hf hid
    (Nat.le_of_eq (by rw [codeStart_wrapMethod])) fun x y hx hx' hy hy' => hspan x y (by omega) hx' (by omega) hy'
  have hmethod : firstMethod? f = (firstMethod? f).map (Method.relocate φ) := firstMethod?_relocate hstmts.symm
  rw [hm] at hmethod
  exact (Option.some.inj hmethod).symm

/-- The ids of a method that was read were drawn for it. -/
theorem fresh_parseMethod {code : Text} {m : Method} (h : a.parseMethod code = (.ok (some m), a')) :
    Fresh a.nextId a'.nextId m.origins := by
  obtain ⟨f, hf, hm⟩ := parseMethod_eq_ok h
  exact (laid_of_parseFile hf).2.2.sublist (origins_firstMethod? hm)

/-! ### One snippet in two places -/

/-- The state that the snippet of a method is read from. -/
def snippetState (a : Arena) (code : Text) : ParseState :=
  ⟨.ofTokens (a.push (wrapMethod code)).tokens ((a.nextSource (wrapMethod code)).first + 1)
    (a.nextSource (wrapMethod code)).stop (a.nextSource (wrapMethod code)).span.stop, a.nextId⟩

theorem on_snippetState (a : Arena) (code : Text) :
    (a.ground (wrapMethod code)).On (a.snippetState code) ∧ (a.snippetState code).cursor.prevEnd = a.text.size + 5 := by
  obtain ⟨start, z, hcode, -, hprev, hon⟩ := a.exists_start (wrapMethod code)
  rw [codeStart_wrapMethod] at hcode
  cases hcode
  exact ⟨hon, hprev⟩

/-- Ahead of a snippet are the tokens behind the opening tag. -/
theorem ahead_snippetState (a : Arena) (code : Text) :
    (a.snippetState code).cursor.ahead = marks .afterTag ((a.tokensOf (wrapMethod code)).drop 1) :=
  congrArg (marks .afterTag) (a.tokens_of_source (wrapMethod code) 1)

theorem parseFile_wrapMethod (a : Arena) (code : Text) : a.parseFile (wrapMethod code) =
    match (a.tokensOf (wrapMethod code)).find? (·.kind == .error) with
    | some bad => (.error ⟨.invalidToken, bad.span⟩, a.push (wrapMethod code))
    | none =>
      match (Parser.file (a.nextSource (wrapMethod code)).span (a.text.size + 5)).run (a.snippetState code) with
      | .ok f st => (.ok f, (a.push (wrapMethod code)).reserve st.nextId)
      | .error e st => (.error e, (a.push (wrapMethod code)).reserve st.nextId) := by
  rw [parseFile, parseSource, tokens_nextSource]
  cases (a.tokensOf (wrapMethod code)).find? (·.kind == .error) with
  | some bad => rfl
  | none =>
    simp only [codeStart_wrapMethod]
    rfl

theorem parseMethod_of_error {code : Text} {bad : Token}
    (h : (a.tokensOf (wrapMethod code)).find? (·.kind == .error) = some bad) :
    a.parseMethod code = (.error ⟨.invalidToken, bad.span⟩, a.push (wrapMethod code)) := by
  simp only [parseMethod, parseFile_wrapMethod, h]

theorem parseMethod_of_run_error {code : Text} {e : ParseError} {s : ParseState}
    (h : (a.tokensOf (wrapMethod code)).find? (·.kind == .error) = none)
    (hrun : (Parser.file (a.nextSource (wrapMethod code)).span (a.text.size + 5)).run (a.snippetState code) = .error e s) :
    a.parseMethod code = (.error e, (a.push (wrapMethod code)).reserve s.nextId) := by
  simp only [parseMethod, parseFile_wrapMethod, h, hrun]

theorem parseMethod_of_run_ok {code : Text} {f : File} {s : ParseState}
    (h : (a.tokensOf (wrapMethod code)).find? (·.kind == .error) = none)
    (hrun : (Parser.file (a.nextSource (wrapMethod code)).span (a.text.size + 5)).run (a.snippetState code) = .ok f s) :
    a.parseMethod code = (.ok (firstMethod? f), (a.push (wrapMethod code)).reserve s.nextId) := by
  simp only [parseMethod, parseFile_wrapMethod, h, hrun]

/-- The transport of a snippet that is read behind `k` more bytes and `d` more ids. -/
def transport (φ : Relocation) (a : Arena) (k d : Nat)
    (hspan : ∀ x y, a.text.size < x → a.text.size < y → φ.span ⟨x, y⟩ = ⟨x + k, y + k⟩)
    (hid : ∀ i, a.nextId ≤ i → φ.id i = i + d) : Transport where
  map := φ
  offset x := x + k
  Seen x := a.text.size < x
  Spot _ := True
  base := a.nextId
  span_eq hx hy := hspan _ _ hx hy
  id_succ hi := by
    rw [hid _ hi, hid _ (Nat.le_succ_of_le hi)]
    exact Nat.succ_add _ d

section Link

variable {b : Arena} {k d : Nat} (htext : b.text.size = a.text.size + k) (hnext : b.nextId = a.nextId + d)

theorem tokensOf_shift (t : Text) (htext : b.text.size = a.text.size + k) :
    b.tokensOf t = (a.tokensOf t).map (·.shift k) := by
  simp only [tokensOf, htext, List.map_map]
  refine congrArg (List.map · (Lexer.lex t)) (funext fun u => ?_)
  simp only [Function.comp_apply, Token.shift, Nat.add_assoc]

variable (hspan : ∀ x y, a.text.size < x → a.text.size < y → φ.span ⟨x, y⟩ = ⟨x + k, y + k⟩)
  (hid : ∀ i, a.nextId ≤ i → φ.id i = i + d)

include htext hnext

theorem states_snippetState (code : Text) :
    (transport φ a k d hspan hid).States (a.snippetState code) (b.snippetState code) := by
  obtain ⟨hon, hprev⟩ := a.on_snippetState code
  obtain ⟨hle, hms⟩ := hon.within
  have htokens := tokensOf_shift (wrapMethod code) htext
  have hprev' : (b.snippetState code).cursor.prevEnd = b.text.size + 5 := (b.on_snippetState code).2
  refine ⟨⟨?_, fun m hm => ?_, ⟨?_, ?_⟩, ⟨?_, ?_⟩, trivial⟩, Nat.le_refl _, ?_⟩
  · rw [ahead_snippetState, ahead_snippetState, htokens, ← List.map_drop]
    exact Transport.marks_token (transport φ a k d hspan hid) .afterTag _
  · obtain ⟨h₁, h₂, h₃, h₄, h₅⟩ := hms m hm
    rw [hprev] at h₁ h₃
    have hsize : ∀ x, a.text.size + 5 ≤ x → a.text.size < x := fun x hx => by omega
    refine ⟨⟨hsize _ h₃, ⟨hsize _ (by omega), Token.stop_shift m.token k⟩, fun _ => ⟨hsize _ (by omega), ?_⟩,
      trivial⟩, hsize _ h₁⟩
    exact Nat.add_right_comm ..
  · show a.text.size < (a.snippetState code).cursor.prevEnd
    omega
  · show (b.snippetState code).cursor.prevEnd = (a.snippetState code).cursor.prevEnd + k
    omega
  · show a.text.size < (a.snippetState code).cursor.eof
    omega
  · show b.text.size + (wrapMethod code).size = a.text.size + (wrapMethod code).size + k
    omega
  · exact (hid a.nextId (Nat.le_refl _)).symm ▸ hnext

/-- A snippet that is read in two places gives the same method, relocated, or fails in both. -/
theorem parseMethod_link (hspan : ∀ x y, a.text.size < x → a.text.size < y → φ.span ⟨x, y⟩ = ⟨x + k, y + k⟩)
    (hid : ∀ i, a.nextId ≤ i → φ.id i = i + d) (code : Text) :
    ((∃ e a', a.parseMethod code = (.error e, a')) ∧ ∃ e b', b.parseMethod code = (.error e, b')) ∨
      ∃ m a' b', a.parseMethod code = (.ok m, a') ∧ b.parseMethod code = (.ok (m.map (Method.relocate φ)), b') ∧
        b'.nextId = a'.nextId + d := by
  have hfind : (b.tokensOf (wrapMethod code)).find? (·.kind == .error) =
      ((a.tokensOf (wrapMethod code)).find? (·.kind == .error)).map (·.shift k) := by
    rw [tokensOf_shift (wrapMethod code) htext, List.find?_map]
    rfl
  cases hbad : (a.tokensOf (wrapMethod code)).find? (·.kind == .error) with
  | some bad =>
    rw [hbad] at hfind
    exact .inl ⟨⟨_, _, parseMethod_of_error hbad⟩, _, _, parseMethod_of_error hfind⟩
  | none =>
    rw [hbad] at hfind
    have hrun := Parser.tracks_file (a.nextSource (wrapMethod code)).span (b.nextSource (wrapMethod code)).span
      (a.text.size + 5) (b.text.size + 5) _ _ (states_snippetState htext hnext hspan hid code)
    generalize ha : EStateM.run _ (a.snippetState code) = ra at hrun
    generalize hb : EStateM.run _ (b.snippetState code) = rb at hrun
    cases hrun with
    | error => exact .inl ⟨⟨_, _, parseMethod_of_run_error hbad ha⟩, _, _, parseMethod_of_run_error hfind hb⟩
    | @ok f g s t hfg hst =>
      refine .inr ⟨firstMethod? f, (a.push (wrapMethod code)).reserve s.nextId,
        (b.push (wrapMethod code)).reserve t.nextId, parseMethod_of_run_ok hbad ha, ?_, ?_⟩
      · exact (parseMethod_of_run_ok hfind hb).trans (by rw [firstMethod?_relocate hfg.1]; rfl)
      · -- The ids that were reserved are drawn in both places.
        have hle : a.nextId ≤ s.nextId := hst.base_le
        have hst' : t.nextId = s.nextId + d := hst.nextId.trans (hid _ hle)
        show max b.nextId t.nextId = max a.nextId s.nextId + d
        rw [hnext, hst', Nat.add_max_add_right]

end Link

end Arena

end Graft
