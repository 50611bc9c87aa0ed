/-
How far a lexeme looks ahead.

What is found at the front of a text of code depends on what follows only as long as a longer match could still come.
So a lexeme stays what it is when the text behind it is exchanged for one that agrees with it up to its end, to a
delimiter or to a closing tag.

* `Parts`, `Agrees` — texts that agree up to where the second one parts;
* `Pattern.longest?_append` — the longest match does not depend on a text that no match reaches;
* `length_le_of_matches` — no match reaches beyond a lexeme;
* `front_of_agrees` — the lexeme stays.
-/
import Graft.Proofs.Token.Closing
import Graft.Proofs.Token.Inner

namespace Graft

/-! ### Matches that reach no further -/

namespace Pattern

variable {p : Pattern} {x w : Text}

/-- The longest match is one of a first part when no match reaches beyond it. -/
theorem longest?_append (h : ∀ s, s <+: x ++ w → Matches p s → s.length ≤ x.length) :
    p.longest? (x ++ w) = p.longest? x := by
  have hlength : ∀ {n}, n ≤ (x ++ w).length → Matches p ((x ++ w).take n) → n ≤ x.length := by
    intro n hn hm
    have hle := h _ (List.take_prefix n _) hm
    rwa [List.length_take, Nat.min_eq_left hn] at hle
  have htake : ∀ {n}, n ≤ x.length → (x ++ w).take n = x.take n := fun hn => List.take_append_of_le_length hn
  refine Option.ext fun n => ?_
  rw [longest?_eq_some_iff, longest?_eq_some_iff]
  constructor
  · rintro ⟨hn, hm, hmax⟩
    have hx := hlength hn hm
    refine ⟨hx, htake hx ▸ hm, fun m hnm hmx hm' => hmax m hnm ?_ (htake hmx ▸ hm')⟩
    rw [List.length_append]
    omega
  · rintro ⟨hx, hm, hmax⟩
    refine ⟨by rw [List.length_append]; omega, htake hx ▸ hm, fun m hnm hmw hm' => ?_⟩
    have hmx := hlength hmw hm'
    exact hmax m hnm hmx (htake hmx ▸ hm')

end Pattern

namespace Lexer

open TokenTable Pattern

/-! ### The longest match of a table -/

theorem longestOf_cons (rule : TokenKind × Pattern) (table : List (TokenKind × Pattern)) (t : Text) :
    longestOf (rule :: table) t = longer ((rule.2.longest? t).map fun n => (rule.1, n)) (longestOf table t) := rfl

theorem longestOf_congr {table : List (TokenKind × Pattern)} {t t' : Text}
    (h : ∀ rule ∈ table, rule.2.longest? t = rule.2.longest? t') : longestOf table t = longestOf table t' := by
  induction table with
  | nil => rfl
  | cons rule table ih =>
    rw [longestOf_cons, longestOf_cons, h rule List.mem_cons_self, ih fun r hr => h r (List.mem_cons_of_mem _ hr)]

/-- No rule of a table matches more than its answer. -/
theorem le_of_longestOf {table : List (TokenKind × Pattern)} {t : Text} {r : TokenKind × Pattern} {m : Nat}
    (hrule : r ∈ table) (hm : r.2.longest? t = some m) : ∃ k n, longestOf table t = some (k, n) ∧ m ≤ n := by
  induction table with
  | nil => cases hrule
  | cons first table ih =>
    rw [longestOf_cons]
    rcases List.mem_cons.1 hrule with rfl | hrest
    · rw [hm, Option.map_some]
      cases longestOf table t with
      | none => exact ⟨_, _, rfl, Nat.le_refl m⟩
      | some best =>
        simp only [longer]
        split
        · rename_i hlt
          exact ⟨_, _, rfl, Nat.le_of_lt hlt⟩
        · exact ⟨_, _, rfl, Nat.le_refl m⟩
    · obtain ⟨k, n, hbest, hle⟩ := ih hrest
      rw [hbest]
      cases first.2.longest? t with
      | none => exact ⟨k, n, rfl, hle⟩
      | some j =>
        simp only [Option.map_some, longer]
        split
        · exact ⟨k, n, rfl, hle⟩
        · exact ⟨_, j, rfl, by omega⟩

/-- Only comments and heredocs are extended. -/
theorem extend_of_not_mem {t : Text} {k : TokenKind} {n : Nat} (h : k ∉ [.blockComment, .heredoc]) :
    extend t (k, n) = (k, n) := by
  cases k <;> first | rfl | exact absurd h (by decide)

/-- A lexeme that is extended gets longer. -/
theorem le_extend (t : Text) (found : TokenKind × Nat) : found.2 ≤ (extend t found).2 := by
  unfold extend
  split
  · split
    · exact Nat.le_add_right _ _
    · exact Nat.le_refl _
  · split
    · exact Nat.le_add_right _ _
    · exact Nat.le_refl _
  · exact Nat.le_refl _

/-- No rule matches more than what the table finds. -/
theorem length_le_of_longestOf {t s : Text} {k : TokenKind} {n : Nat} (h : longestOf rules t = some (k, n))
    {rule : TokenKind × Pattern} (hrule : rule ∈ rules) (hs : s <+: t) (hm : Matches rule.2 s) : s.length ≤ n := by
  have htake : t.take s.length = s := (List.prefix_iff_eq_take.1 hs).symm
  cases hlong : rule.2.longest? t with
  | none => exact absurd (htake.symm ▸ hm) (longest?_eq_none_iff.1 hlong s.length)
  | some m =>
    obtain ⟨l, j, hbest, hmj⟩ := le_of_longestOf hrule hlong
    cases h.symm.trans hbest
    refine Nat.le_trans (Nat.le_of_not_lt fun hlt => ?_) hmj
    exact (longest?_eq_some_iff.1 hlong).2.2 s.length hlt hs.length_le (htake.symm ▸ hm)

/-! ### Texts that part -/

/-- But for whitespace, line comments and quoted text nothing goes on over the beginning of the text: it is empty, or
it begins with a delimiter, with a bracket or with a closing tag. -/
def Parts (t : Text) : Prop := (∀ c ∈ t.head?, c ∈ '[' :: delimiters) ∨ ['?', '>'] <+: t

/-- The texts agree up to where the second one parts. -/
def Agrees (w w' : Text) : Prop := ∃ z y, z <+: w ∧ w' = z ++ y ∧ Parts y

theorem parts_nil : Parts [] := .inl nofun

theorem parts_cons {d : Char} (h : d ∈ '[' :: delimiters) (t : Text) : Parts (d :: t) :=
  .inl fun c hc => by
    cases hc
    exact h

theorem Parts.agrees {w w' : Text} (h : Parts w') : Agrees w w' := ⟨[], w', List.nil_prefix, rfl, h⟩

theorem Agrees.append {w w' : Text} (h : Agrees w w') (x : Text) : Agrees (x ++ w) (x ++ w') := by
  obtain ⟨z, y, hz, rfl, hy⟩ := h
  exact ⟨x ++ z, y, (List.prefix_append_right_inj x).2 hz, (List.append_assoc x z y).symm, hy⟩

/-- Another text behind a delimiter. -/
theorem agrees_of_mem {d : Char} (h : d ∈ '[' :: delimiters) (x w w' : Text) : Agrees (x ++ d :: w) (x ++ d :: w') :=
  (parts_cons h w').agrees.append x

/-- No name goes on where a text parts. -/
theorem Parts.head? {t : Text} (h : Parts t) : t.head?.any isLabelPart = false := by
  cases t with
  | nil => rfl
  | cons c t =>
    rcases h with h | ⟨u, hu⟩
    · have hdelimiter : ('[' :: delimiters).any isLabelPart = false := by decide
      exact Bool.eq_false_iff.2 (List.any_eq_false.1 hdelimiter c (h c rfl))
    · obtain rfl : '?' = c := (List.cons.inj hu).1
      exact (by decide : isLabelPart '?' = false)

/-- Two characters that one lexeme may be made of, though a text parts between them. -/
def Joins (x y : Text) : Prop := (x = ['?'] ∧ y.head? = some '?') ∨ (x = ['#'] ∧ y.head? = some '[')

/-- Where a text parts, no rule but that of a run or of quoted text goes on. -/
theorem length_le_of_parts {x y s : Text} {rule : TokenKind × Pattern} (hrule : rule ∈ rules)
    (hkind : rule.1 ∉ [.whitespace, .lineComment, .string, .shellExec]) (hx : x ≠ []) (hy : Parts y)
    (hjoins : ¬ Joins x y) (hs : s <+: x ++ y) (hm : Matches rule.2 s) : s.length ≤ x.length := by
  refine Nat.le_of_not_lt fun hlt => ?_
  obtain ⟨v, rfl⟩ := List.prefix_of_prefix_length_le (List.prefix_append x y) hs (Nat.le_of_lt hlt)
  rw [List.prefix_append_right_inj] at hs
  obtain ⟨c, x, rfl⟩ := List.exists_cons_of_ne_nil hx
  obtain ⟨k, p⟩ := rule
  cases v with
  | nil => exact absurd hlt (by simp)
  | cons d v =>
    obtain ⟨y, rfl⟩ := hs
    have hinner : p.inner d = true := hm.inner (by simp)
    have hkind' : ∀ l, k ≠ l → k ∉ [.whitespace, .lineComment, .string, .shellExec, l] := by
      intro l hl
      simp only [List.mem_cons, List.not_mem_nil, or_false, not_or] at hkind ⊢
      exact ⟨hkind.1, hkind.2.1, hkind.2.2.1, hkind.2.2.2, hl⟩
    have hd : d = '?' ∨ d = '[' ∨ d ∈ delimiters := by
      rcases hy with hy | ⟨u, hu⟩
      · exact .inr (List.mem_cons.1 (hy d rfl))
      · exact .inl (List.cons.inj hu).1.symm
    rcases hd with rfl | rfl | hd
    · by_cases hop : k = .op
      · -- An operator is in the list of operators.
        subst hop
        obtain rfl : p = any (operators.map fun s => lit s.toList) := by simpa [rules] using hrule
        obtain ⟨q, hq, hm⟩ := matches_any.1 hm
        obtain ⟨o, ho, rfl⟩ := List.mem_map.1 hq
        have htext := matches_lit.1 hm
        have hmark := question_operators o ho (c :: x).length
          (List.mem_range.2 (by rw [← htext]; simp)) (by simp)
          (by rw [← htext, List.getElem?_append_right (Nat.le_refl _), Nat.sub_self]; rfl)
        rw [← htext, List.take_left] at hmark
        exact hjoins (.inl ⟨hmark, rfl⟩)
      · rw [inner_question_rules _ hrule (hkind' _ hop)] at hinner
        cases hinner
    · by_cases hattr : k = .attrOpen
      · subst hattr
        obtain rfl : p = lit "#[".toList := by simpa [rules] using hrule
        have htext : c :: (x ++ '[' :: v) = ['#', '['] := matches_lit.1 hm
        obtain ⟨rfl, htail⟩ := List.cons.inj htext
        cases x with
        | nil => exact hjoins (.inr ⟨rfl, rfl⟩)
        | cons e x => exact absurd (congrArg List.length htail) (by simp)
      · rw [inner_bracket_rules _ hrule (hkind' _ hattr)] at hinner
        cases hinner
    · rw [inner_rules _ hrule hkind d hd] at hinner
      cases hinner

/-! ### Runs and quoted text -/

section Fronts

variable {k : TokenKind} {x w w' s : Text} (hfront : front (x ++ w) = (k, x.length)) (herror : k ≠ .error)

include hfront herror

/-- The rule behind a lexeme, and what it matches of it: no rule matches more of the text that was read. -/
theorem exists_rule : ∃ p z y, (k, p) ∈ rules ∧ x = z ++ y ∧ z ≠ [] ∧ Matches p z ∧
    front (x ++ w) = extend (x ++ w) (k, z.length) ∧
      ∀ rule ∈ rules, ∀ s, s <+: x ++ w → Matches rule.2 s → s.length ≤ z.length := by
  obtain ⟨n, hfound, hextend⟩ := longestOf_of_front (t := x ++ w) (by rw [hfront]; exact herror)
  rw [hfront] at hfound hextend
  obtain ⟨p, hp, hn⟩ := longestOf_eq_some hfound
  obtain ⟨-, hm, -⟩ := longest?_eq_some_iff.1 hn
  have hle : n ≤ x.length := by
    have hle := le_extend (x ++ w) (k, n)
    rwa [← hextend] at hle
  have hlength : (x.take n).length = n := by rw [List.length_take, Nat.min_eq_left hle]
  rw [List.take_append_of_le_length hle] at hm
  refine ⟨p, x.take n, x.drop n, hp, (List.take_append_drop n x).symm, ?_, hm, ?_, ?_⟩
  · intro hnil
    have hnull := nullable_rules _ hp
    rw [hnil, ← nullable_iff, hnull] at hm
    cases hm
  · rw [hfront, hextend, hlength]
  · rw [hlength]
    exact fun rule hr s hs hm => length_le_of_longestOf hfound hr hs hm

/-- What a rule matches of the text that was read is no longer than the lexeme. -/
theorem length_le_of_front {r : TokenKind × Pattern} (hrule : r ∈ rules) (hs : s <+: x ++ w)
    (hm : Matches r.2 s) : s.length ≤ x.length := by
  obtain ⟨p, z, y, -, rfl, -, -, -, hmax⟩ := exists_rule hfront herror
  have hle := hmax r hrule s hs hm
  rw [List.length_append]
  omega

/-- A lexeme that begins with a character that only one rule begins with is of that rule. -/
theorem kind_of_head {c : Char} (hc : x.head? = some c) {ks : List TokenKind}
    (h : ∀ rule ∈ rules, rule.1 ∉ ks → (rule.2.step c).isFail = true) : k ∈ ks := by
  obtain ⟨p, z, y, hp, rfl, hz, hm, -, -⟩ := exists_rule hfront herror
  refine Decidable.byContradiction fun hk => ?_
  refine hm.head?_ne (h (k, p) hp hk) ?_
  obtain ⟨d, z, rfl⟩ := List.exists_cons_of_ne_nil hz
  exact hc

/-- What may stand behind the lexeme: what stood there or nothing; behind a lexeme that is no run also a blank, and
anything unless it is an operator that a comment or another operator begins with. -/
def Follows (k : TokenKind) (x w w' : Text) : Prop :=
  w'.head? = w.head? ∨ w' = [] ∨
    (k ∉ [.whitespace, .lineComment] ∧ (w'.head?.any isSpace = true ∨ (x ≠ ['/'] ∧ x ≠ ['?'])))

omit hfront herror in
/-- A match that is longer than the lexeme takes a first character of what follows. -/
theorem exists_of_length_lt (hs : s <+: x ++ w') (hlt : x.length < s.length) :
    ∃ c, w'.head? = some c ∧ x ++ [c] <+: s := by
  obtain ⟨v, rfl⟩ := List.prefix_of_prefix_length_le (List.prefix_append x w') hs (Nat.le_of_lt hlt)
  rw [List.prefix_append_right_inj] at hs
  cases v with
  | nil => exact absurd hlt (by simp)
  | cons c v =>
    obtain ⟨y, rfl⟩ := hs
    exact ⟨c, rfl, by simp⟩

omit hfront herror in
/-- Where the same character follows, the lexeme with it is part of the text that was read. -/
theorem prefix_of_head? {c : Char} (h : w'.head? = w.head?) (hc : w'.head? = some c) : x ++ [c] <+: x ++ w := by
  rw [h] at hc
  obtain ⟨y, rfl⟩ := List.head?_eq_some_iff.1 hc
  simp

theorem length_le_whitespace (hx : x ≠ []) (hfollows : Follows k x w w') (hs : s <+: x ++ w')
    (hm : Matches (plus (.one isSpace)) s) : s.length ≤ x.length := by
  refine Nat.le_of_not_lt fun hlt => ?_
  obtain ⟨c, hc, hbegins⟩ := exists_of_length_lt hs hlt
  have hspaces := (matches_whitespace.1 hm).2
  have hlonger : Matches (plus (.one isSpace)) (x ++ [c]) :=
    matches_whitespace.2 ⟨by simp, fun d hd => hspaces d (hbegins.subset hd)⟩
  rcases hfollows with hhead | rfl | ⟨hkind, -⟩
  · have hle := length_le_of_front hfront herror (r := (.whitespace, _)) List.mem_cons_self (prefix_of_head? hhead hc) hlonger
    rw [List.length_append, List.length_singleton] at hle
    omega
  · cases hc
  · obtain ⟨d, x, rfl⟩ := List.exists_cons_of_ne_nil hx
    have hd := mem_of_isSpace (hspaces d (hbegins.subset (by simp)))
    have hspace := kind_of_head hfront herror (c := d) rfl fun rule hr hk => step_space_rules rule hr hk d hd
    exact hkind (List.mem_cons.2 (.inl (List.mem_singleton.1 hspace)))

/-- A lexeme that begins with two slashes is a line comment. -/
theorem kind_of_slashes {y : Text} (hx : x = '/' :: '/' :: y) : k = .lineComment := by
  obtain ⟨p, z, v, hp, hsplit, hz, hm, -, hmax⟩ := exists_rule hfront herror
  refine Decidable.byContradiction fun hk => ?_
  -- The comments match the two slashes at least.
  have hlength := hmax (.lineComment, lineComment) (by simp [rules]) ['/', '/'] (by simp [hx])
    (matches_lineComment.2 ⟨by decide, .inl ⟨[], rfl⟩⟩)
  have htext : ['/', '/'] <+: z ++ v := ⟨y, by rw [← hsplit, hx]; rfl⟩
  have hslashes : ['/', '/'] <+: z := List.prefix_of_prefix_length_le htext (List.prefix_append z v) hlength
  obtain ⟨u, rfl⟩ := hslashes
  have hstep : Matches ((p.step '/').step '/') u := (matches_step '/' _ _).2 ((matches_step '/' _ _).2 hm)
  cases (step_slash_rules (k, p) hp hk).symm.trans hstep.isFail_eq

/-- A lexeme that begins with a number sign is a line comment or opens an attribute. -/
theorem kind_of_sharp {y : Text} (hx : x = '#' :: y) : k = .lineComment ∨ (k = .attrOpen ∧ x = ['#', '[']) := by
  obtain ⟨p, z, v, hp, hsplit, hz, hm, hextend, -⟩ := exists_rule hfront herror
  have hkind := kind_of_head hfront herror (c := '#') (by rw [hx]; rfl) step_sharp_rules
  rcases List.mem_cons.1 hkind with hk | hk
  · exact .inl hk
  · have hk := List.mem_singleton.1 hk
    subst hk
    obtain rfl : p = lit "#[".toList := by simpa [rules] using hp
    have hz' := matches_lit.1 hm
    subst hz'
    have hlength : x.length = 2 := congrArg Prod.snd (hfront.symm.trans hextend)
    rw [hsplit, List.length_append] at hlength
    have hv : v = [] := List.length_eq_zero_iff.1 (by simpa using hlength)
    rw [hsplit, hv]
    exact .inr ⟨rfl, rfl⟩

theorem length_le_lineComment (hx : x ≠ []) (hfollows : Follows k x w w') (hs : s <+: x ++ w')
    (hm : Matches lineComment s) : s.length ≤ x.length := by
  refine Nat.le_of_not_lt fun hlt => ?_
  obtain ⟨c, hc, hbegins⟩ := exists_of_length_lt hs hlt
  obtain ⟨hbreak, hopener⟩ := matches_lineComment.1 hm
  have hbreak' : '\n' ∉ x ++ [c] := fun hmem => hbreak (hbegins.subset hmem)
  obtain ⟨d, y, rfl⟩ := List.exists_cons_of_ne_nil hx
  obtain ⟨v, rfl⟩ := hbegins
  -- The lexeme with what follows it would be a comment.
  have hlonger : Matches lineComment (d :: y ++ [c]) ∧ (k = .lineComment ∨ (d :: y = ['/'] ∧ c = '/')) := by
    rcases hopener with ⟨u, hu⟩ | ⟨u, hu, hbracket⟩
    · obtain ⟨rfl, htail⟩ := List.cons.inj hu
      cases y with
      | nil =>
        obtain rfl : c = '/' := (List.cons.inj htail).1
        exact ⟨matches_lineComment.2 ⟨hbreak', .inl ⟨[], rfl⟩⟩, .inr ⟨rfl, rfl⟩⟩
      | cons e y =>
        obtain rfl : e = '/' := (List.cons.inj htail).1
        exact ⟨matches_lineComment.2 ⟨hbreak', .inl ⟨y ++ [c], rfl⟩⟩, .inl (kind_of_slashes hfront herror rfl)⟩
    · obtain ⟨rfl, htail⟩ := List.cons.inj hu
      have hhead : (y ++ [c]).head? = u.head? := by
        rw [← htail]
        cases y <;> rfl
      refine ⟨matches_lineComment.2 ⟨hbreak', .inr ⟨y ++ [c], rfl, by rwa [hhead]⟩⟩, ?_⟩
      rcases kind_of_sharp hfront herror rfl with hk | ⟨-, hattr⟩
      · exact .inl hk
      · obtain rfl : y = ['['] := (List.cons.inj hattr).2
        exact absurd hhead.symm hbracket
  rcases hfollows with hhead | rfl | ⟨hkind, hbehind⟩
  · have hle := length_le_of_front hfront herror (r := (.lineComment, lineComment)) (by simp [rules])
      (prefix_of_head? hhead hc) hlonger.1
    rw [List.length_append, List.length_singleton] at hle
    omega
  · cases hc
  · rcases hlonger.2 with hk | ⟨hslash, rfl⟩
    · exact hkind (by rw [hk]; decide)
    · rcases hbehind with hspace | ⟨hne, -⟩
      · rw [hc] at hspace
        cases hspace
      · exact hne hslash

/-- Text in quotes ends with its quote. -/
theorem length_le_quoted {q : Char} {l : TokenKind} (hx : x ≠ []) (hq : q ≠ '\\')
    (hl : l ∉ [.blockComment, .heredoc])
    (honly : ∀ rule ∈ rules, rule.1 ∉ [l] → (rule.2.step q).isFail = true)
    (hrule : ∀ p, (l, p) ∈ rules → ∀ t, Matches p t → t.head? = some q → Matches (quoted q) t)
    (hs : s <+: x ++ w') (hm : Matches (quoted q) s) : s.length ≤ x.length := by
  refine Nat.le_of_not_lt fun hlt => ?_
  obtain ⟨v, rfl⟩ := List.prefix_of_prefix_length_le (List.prefix_append x w') hs (Nat.le_of_lt hlt)
  have hhead : x.head? = some q := by
    rw [← head?_quoted hm]
    obtain ⟨c, x, rfl⟩ := List.exists_cons_of_ne_nil hx
    rfl
  obtain ⟨p, z, y, hp, rfl, hz, hmz, hextend, -⟩ := exists_rule hfront herror
  have hk : k = l := List.mem_singleton.1 (kind_of_head hfront herror hhead honly)
  subst hk
  have hy : y = [] := by
    have hlength : (z ++ y).length = z.length := by
      rw [extend_of_not_mem hl] at hextend
      exact congrArg Prod.snd (hfront.symm.trans hextend)
    rw [List.length_append] at hlength
    exact List.length_eq_zero_iff.1 (by omega)
  subst hy
  rw [List.append_nil] at hm hhead hlt
  have hnil := quoted_unique hq (hrule p hp z hmz hhead) hm
  rw [hnil, List.append_nil] at hlt
  exact Nat.lt_irrefl _ hlt

theorem length_le_string {p : Pattern} (hp : (.string, p) ∈ rules) (hx : x ≠ []) (hs : s <+: x ++ w')
    (hm : Matches p s) : s.length ≤ x.length := by
  obtain rfl : p = .alt (quoted '\'') (quoted '"') := by simpa [rules] using hp
  -- The first character tells the quotes.
  have hrule : ∀ q q', q = '\'' ∧ q' = '"' ∨ q = '"' ∧ q' = '\'' → ∀ r, (TokenKind.string, r) ∈ rules → ∀ t, Matches r t →
      t.head? = some q → Matches (quoted q) t := by
    intro q q' hqs r hr t ht hhead
    obtain rfl : r = .alt (quoted '\'') (quoted '"') := by simpa [rules] using hr
    rcases hqs with ⟨rfl, rfl⟩ | ⟨rfl, rfl⟩ <;> rcases matches_alt.1 ht with ht | ht
    · exact ht
    · cases hhead.symm.trans (head?_quoted ht)
    · cases hhead.symm.trans (head?_quoted ht)
    · exact ht
  rcases matches_alt.1 hm with hm | hm
  · exact length_le_quoted hfront herror hx (by decide) (by decide) (fun r hr hk => ((step_quote_rules r hr).1 hk).1)
      (hrule _ _ (.inl ⟨rfl, rfl⟩)) hs hm
  · exact length_le_quoted hfront herror hx (by decide) (by decide) (fun r hr hk => ((step_quote_rules r hr).1 hk).2)
      (hrule _ _ (.inr ⟨rfl, rfl⟩)) hs hm

theorem length_le_shellExec {p : Pattern} (hp : (.shellExec, p) ∈ rules) (hx : x ≠ []) (hs : s <+: x ++ w')
    (hm : Matches p s) : s.length ≤ x.length := by
  obtain rfl : p = quoted '`' := by simpa [rules] using hp
  refine length_le_quoted hfront herror hx (by decide) (by decide) (fun r hr hk => (step_quote_rules r hr).2 hk) ?_ hs hm
  intro r hr t ht _
  obtain rfl : r = quoted '`' := by simpa [rules] using hr
  exact ht

/-! ### The lexeme stays -/

/-- No rule matches more than the lexeme of the other text, either. -/
theorem length_le_of_agrees (hx : x ≠ []) (hagrees : Agrees w w') (hfollows : Follows k x w w')
    {rule : TokenKind × Pattern} (hrule : rule ∈ rules) (hs : s <+: x ++ w') (hm : Matches rule.2 s) :
    s.length ≤ x.length := by
  obtain ⟨l, p⟩ := rule
  by_cases hkind : l ∈ [.whitespace, .lineComment, .string, .shellExec]
  · simp only [List.mem_cons, List.not_mem_nil, or_false] at hkind
    rcases hkind with rfl | rfl | rfl | rfl
    · obtain rfl : p = plus (.one isSpace) := by simpa [rules] using hrule
      exact length_le_whitespace hfront herror hx hfollows hs hm
    · obtain rfl : p = lineComment := by simpa [rules] using hrule
      exact length_le_lineComment hfront herror hx hfollows hs hm
    · exact length_le_string hfront herror hrule hx hs hm
    · exact length_le_shellExec hfront herror hrule hx hs hm
  · obtain ⟨z, y, hz, rfl, hy⟩ := hagrees
    rw [← List.append_assoc] at hs
    have hjoins : ¬ Joins (x ++ z) y := by
      -- Such a lexeme has one character, and the next one was not there.
      have hone : ∀ c, x ++ z = [c] → x = [c] ∧ z = [] := by
        intro c hc
        rcases List.append_eq_singleton_iff.1 hc with ⟨hnil, -⟩ | h
        · exact absurd hnil hx
        · exact h
      have hnext : ∀ c d, x = [c] → z = [] → y.head? = some d → isSpace d = false →
          (k ∈ [.whitespace, .lineComment] ∨ x = ['?']) → ∀ r ∈ rules, ¬ Matches r.2 [c, d] := by
        rintro c d rfl rfl hd hspace hk r hr hm
        rcases hfollows with heq | hnil | ⟨hrun, hblank | ⟨-, hne⟩⟩
        · exact absurd (length_le_of_front hfront herror hr (prefix_of_head? heq hd) hm) (by simp)
        · rw [List.nil_append] at hnil
          rw [hnil] at hd
          cases hd
        · rw [List.nil_append, hd, Option.any_some, hspace] at hblank
          cases hblank
        · exact hk.elim hrun hne
      rintro (⟨hmark, hhead⟩ | ⟨hsharp, hhead⟩)
      · obtain ⟨hx', hz'⟩ := hone _ hmark
        exact hnext _ _ hx' hz' hhead rfl (.inr hx') (.op, any (operators.map fun s => lit s.toList)) (by simp [rules])
          (matches_any.2 ⟨lit "??".toList, List.mem_map_of_mem (by decide), matches_lit.2 rfl⟩)
      · obtain ⟨hx', hz'⟩ := hone _ hsharp
        rcases kind_of_sharp hfront herror hx' with hk | ⟨-, hattr⟩
        · exact hnext _ _ hx' hz' hhead rfl (.inl (by rw [hk]; decide)) (.attrOpen, lit "#[".toList) (by simp [rules])
            (matches_lit.2 rfl)
        · rw [hx'] at hattr
          cases hattr
    have hle := length_le_of_parts hrule hkind (by simp [hx]) hy hjoins hs hm
    -- What both texts have in common was read.
    have hcommon : s <+: x ++ w :=
      (List.prefix_of_prefix_length_le hs (List.prefix_append (x ++ z) y) hle).trans
        ((List.prefix_append_right_inj x).2 hz)
    exact length_le_of_front hfront herror hrule hcommon hm

omit hfront herror in
/-- What a comment or a heredoc is extended by stays. -/
theorem extend_append {n : Nat} (hn : n ≤ x.length) (hagrees : Agrees w w') (herror : k ≠ .error)
    (h : extend (x ++ w) (k, n) = (k, x.length)) : extend (x ++ w') (k, n) = (k, x.length) := by
  have hdrop : ∀ v, (x ++ v).drop n = x.drop n ++ v := fun v => List.drop_append_of_le_length hn
  have hlength : (x.drop n).length = x.length - n := List.length_drop
  by_cases hkind : k ∈ [.blockComment, .heredoc]
  · simp only [List.mem_cons, List.not_mem_nil, or_false] at hkind
    rcases hkind with rfl | rfl
    · simp only [extend, hdrop] at h ⊢
      split at h
      · rename_i m hm
        obtain rfl : m = (x.drop n).length := by
          have := congrArg Prod.snd h
          simp only at this
          omega
        rw [BlockComment.extent?_append hm]
        exact h
      · cases h
    · simp only [extend, hdrop] at h ⊢
      split at h
      · rename_i m hm
        obtain rfl : m = (x.drop n).length := by
          have := congrArg Prod.snd h
          simp only at this
          omega
        have hhead : w'.head?.any isLabelPart = false := by
          obtain ⟨z, y, ⟨v, rfl⟩, rfl, hy⟩ := hagrees
          cases z with
          | nil => exact hy.head?
          | cons c z =>
            have hbehind := Heredoc.head?_behind_extent hm
            exact hbehind
        rw [Heredoc.extent?_append hhead hm]
        exact h
      · cases h
  · rw [extend_of_not_mem hkind] at h ⊢
    exact h

/-- A lexeme of code stays when the text behind it is exchanged for one that agrees with it up to where it parts, and
that may follow the lexeme. -/
theorem front_of_agrees (hx : x ≠ []) (hagrees : Agrees w w') (hfollows : Follows k x w w') :
    front (x ++ w') = (k, x.length) := by
  have hwithin : ∀ rule ∈ rules, rule.2.longest? (x ++ w') = rule.2.longest? (x ++ w) := by
    intro rule hrule
    rw [longest?_append fun s hs hm => length_le_of_agrees hfront herror hx hagrees hfollows hrule hs hm,
      longest?_append fun s hs hm => length_le_of_front hfront herror hrule hs hm]
  obtain ⟨n, hfound, hextend⟩ := longestOf_of_front (t := x ++ w) (by rw [hfront]; exact herror)
  rw [hfront] at hfound hextend
  have hn : n ≤ x.length := by
    have hle := le_extend (x ++ w) (k, n)
    rwa [← hextend] at hle
  rw [front, longestOf_congr hwithin, hfound]
  exact extend_append hn hagrees herror hextend.symm

end Fronts

end Lexer

end Graft
