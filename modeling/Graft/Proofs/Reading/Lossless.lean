/-
Nothing is lost between texts and their tokens.

The tokens of a text stand one behind the other, begin and end between characters and hold what stands between their
ends, from the start of the text to its end.  Reading ends by itself: what is found at the front of a text of code has
at least one character and lies within the text, so that one round for each character is enough and more rounds find
no more.

Texts that are appended to an arena stand one behind the other, and so do their tokens.  What was appended stays where
it is.  Offsets and spans are looked up by halving, which finds what looking at every token would find, because starts and
ends grow along the whole arena.

* `Tiled.covering` — what tiled tokens cover;
* `Lexer.lexemes_of_length_le` — how many rounds are enough;
* `Lexer.covering_lex` — both for the tokens of a text;
* `TokenList.partitionPoint_eq_countP`, `Tiled.indexAt_eq`, `Tiled.within_eq` — looking up offsets and spans;
* `Arena.Holds`, `Arena.Holds.push`, `Arena.Holds.appendAll` — what one more text and any number of texts leave as it was;
* `Arena.appendAll_spec` — what an arena answers after texts have been appended to it.
-/
import Mathlib.Data.List.Chain
import Graft.Proofs.Reading.Source
import Graft.Proofs.Token.Front

namespace Graft

/-! ### Coverings -/

/-- The tokens cover the text: each is a non-empty piece of it, and they follow one another from its start to its
end. -/
structure Covering (s : Text) (ts : List Token) : Prop where
  starts : ∀ t, ts.head? = some t → t.start = 0
  joins : ts.IsChain fun t u => u.start = t.stop
  stops : ∀ t, ts.getLast? = some t → t.stop = s.size
  nonempty : ∀ t ∈ ts, t.start < t.stop
  cuts : ∀ t ∈ ts, s.IsCut t.start ∧ s.IsCut t.stop
  slices : ∀ t ∈ ts, s.slice t.start t.stop = t.text
  whole : ts.flatMap Token.text = s
  none_iff : ts = [] ↔ s = []

namespace Tiled

variable {x y : Nat} {t : Token} {ts : List Token}

theorem start_head? (h : Tiled x ts y) (ht : ts.head? = some t) : t.start = x := by
  cases ts with
  | nil => cases ht
  | cons u ts =>
    cases ht
    exact h.1

theorem isChain (h : Tiled x ts y) : ts.IsChain fun t u => u.start = t.stop := by
  induction ts generalizing x with
  | nil => exact .nil
  | cons t ts ih =>
    obtain ⟨-, -, hrest⟩ := h
    exact List.isChain_cons.2 ⟨fun u hu => hrest.start_head? hu, ih hrest⟩

theorem stop_getLast? (h : Tiled x ts y) (ht : ts.getLast? = some t) : t.stop = y := by
  obtain ⟨us, rfl⟩ := List.getLast?_eq_some_iff.1 ht
  obtain ⟨z, -, hlast⟩ := h.of_append
  exact hlast.2.2

theorem append {z : Nat} {us : List Token} (h : Tiled x ts y) (hus : Tiled y us z) : Tiled x (ts ++ us) z := by
  induction ts generalizing x with
  | nil =>
    cases (show x = y from h)
    exact hus
  | cons t ts ih =>
    obtain ⟨hx, hne, hrest⟩ := h
    exact ⟨hx, hne, ih hrest⟩

/-- A token stands in the text of all tokens at its offsets. -/
theorem exists_split (h : Tiled x ts y) (ht : t ∈ ts) :
    ∃ a b : Text, ts.flatMap Token.text = a ++ (t.text ++ b) ∧ t.start = x + a.size := by
  induction ts generalizing x with
  | nil => cases ht
  | cons u ts ih =>
    obtain ⟨hx, -, hrest⟩ := h
    rcases List.mem_cons.1 ht with rfl | hmem
    · exact ⟨[], ts.flatMap Token.text, List.flatMap_cons, hx⟩
    · obtain ⟨a, b, hab, hstart⟩ := ih hrest hmem
      refine ⟨u.text ++ a, b, ?_, ?_⟩
      · rw [List.flatMap_cons, hab, List.append_assoc]
      · rw [hstart, Token.stop, hx, Text.size_append, Nat.add_assoc]

/-- Tiled tokens cover the text that they hold. -/
theorem covering (h : Tiled 0 ts y) : Covering (ts.flatMap Token.text) ts := by
  have hsplit : ∀ t ∈ ts, ∃ a b : Text, ts.flatMap Token.text = a ++ (t.text ++ b) ∧ t.start = a.size ∧
      t.stop = a.size + t.text.size := by
    intro t ht
    obtain ⟨a, b, hab, hstart⟩ := h.exists_split ht
    rw [Nat.zero_add] at hstart
    exact ⟨a, b, hab, hstart, by rw [Token.stop, hstart]⟩
  refine ⟨fun t ht => h.start_head? ht, h.isChain, fun t ht => ?_, fun t ht => (h.within ht).2.1, fun t ht => ?_,
    fun t ht => ?_, rfl, ⟨?_, fun hnil => ?_⟩⟩
  · rw [h.stop_getLast? ht, ← h.size_flatMap, Nat.zero_add]
  · obtain ⟨a, b, hab, hstart, hstop⟩ := hsplit t ht
    rw [hab, hstart, hstop]
    exact ⟨⟨a, _, rfl, rfl⟩, a ++ t.text, b, by rw [List.append_assoc], Text.size_append _ _⟩
  · obtain ⟨a, b, hab, hstart, hstop⟩ := hsplit t ht
    rw [hab, hstart, hstop, Text.slice_append]
  · rintro rfl
    rfl
  · -- A token would hold a character of the empty text.
    refine List.eq_nil_iff_forall_not_mem.2 fun t ht => ?_
    obtain ⟨a, b, hab, hstart, hstop⟩ := hsplit t ht
    have hpos := (h.within ht).2.1
    have hsize := congrArg Text.size (hab.symm.trans hnil)
    rw [Text.size_append, Text.size_append, Text.size_nil] at hsize
    omega

end Tiled

/-! ### Rounds -/

namespace Lexer

/-- A round takes at least one character off the text. -/
theorem length_drop_next_lt (mode : Mode) {t : Text} (hne : t ≠ []) :
    (t.drop (next mode t).1.text.length).length < t.length := by
  have htext := List.length_pos_iff.2 (next_text mode hne).1
  have ht := List.length_pos_iff.2 hne
  rw [List.length_drop]
  omega

/-- As many rounds as the text has characters are enough. -/
theorem lexemes_of_length_le {m n : Nat} {t : Text} (hm : t.length ≤ m) (hn : t.length ≤ n) (mode : Mode) :
    lexemes m mode t = lexemes n mode t := by
  induction m generalizing n mode t with
  | zero =>
    obtain rfl : t = [] := List.eq_nil_of_length_eq_zero (Nat.le_zero.1 hm)
    cases n <;> rfl
  | succ m ih =>
    cases t with
    | nil => cases n <;> rfl
    | cons c t =>
      obtain ⟨n, rfl⟩ : ∃ k, n = k + 1 := ⟨n - 1, by rw [List.length_cons] at hn; omega⟩
      have hlt := length_drop_next_lt mode (t := c :: t) (List.cons_ne_nil c t)
      simp only [lexemes]
      rw [ih (n := n) (by omega) (by omega)]

/-- The tokens of a text cover it; no number of further rounds finds other tokens, and what a round in the code finds
is never empty and never more than the text. -/
theorem covering_lex (s : Text) :
    Covering s (lex s) ∧ (∀ rounds, s.length ≤ rounds → place 0 (lexemes rounds .html s) = lex s) ∧
      ∀ t : Text, t ≠ [] → 0 < (front t).2 ∧ (front t).2 ≤ t.length ∧ lexeme t = ⟨(front t).1, t.take (front t).2⟩ := by
  refine ⟨?_, fun rounds hrounds => ?_, fun t hne => ?_⟩
  · have htext : (lex s).flatMap Token.text = s := by
      calc (lex s).flatMap Token.text
          = ((lex s).map Token.lexeme).flatMap Lexeme.text := by rw [List.flatMap_map]; rfl
        _ = (lexemes s.length .html s).flatMap Lexeme.text := by rw [lex, map_lexeme_place]
        _ = s := flatten_lexemes _ _ _ (Nat.le_refl _)
    have hcovering := (Tiled.lex s).covering
    rwa [htext] at hcovering
  · rw [lex, lexemes_of_length_le hrounds (Nat.le_refl _)]
  · obtain ⟨hpos, hle⟩ := bounds_of_front hne
    exact ⟨hpos, hle, lexeme_eq_take hne⟩

end Lexer

/-! ### Searching by offsets -/

namespace TokenList

/-- The tokens that satisfy `p` come first. -/
def ComesFirst (p : Token → Bool) (ts : List Token) : Prop := ts.Pairwise fun t u => p u = true → p t = true

variable {p q : Token → Bool} {ts : List Token}

/-- What a look at a token tells of the tokens on either side of it. -/
theorem ComesFirst.of_drop {n : Nat} {t : Token} {rest : List Token} (h : ComesFirst p ts) (hdrop : ts.drop n = t :: rest) :
    ComesFirst p (ts.take n) ∧ ComesFirst p rest ∧ (p t = true → ∀ u ∈ ts.take n, p u = true) ∧
      (¬p t = true → ∀ u ∈ t :: rest, ¬p u = true) := by
  have hsplit : (ts.take n ++ t :: rest).Pairwise fun t u => p u = true → p t = true := by
    rw [← hdrop, List.take_append_drop]
    exact h
  obtain ⟨htake, hcons, hbefore⟩ := List.pairwise_append.1 hsplit
  obtain ⟨hbehind, hrest⟩ := List.pairwise_cons.1 hcons
  exact ⟨htake, hrest, fun hp u hu => hbefore u hu t List.mem_cons_self hp,
    fun hp => List.forall_mem_cons.2 ⟨hp, fun u hu hpu => hp (hbehind u hu hpu)⟩⟩

/-- Halving finds how many tokens satisfy a property when these come first. -/
theorem partitionPoint_eq_countP (h : ComesFirst p ts) : partitionPoint p ts = ts.countP p := by
  have hcount : ∀ (ts : List Token) (n : Nat), ts.countP p = (ts.take n).countP p + (ts.drop n).countP p := by
    intro ts n
    rw [← List.countP_append, List.take_append_drop]
  fun_induction partitionPoint p ts with
  | case1 ts hnil =>
    have hlength := congrArg List.length hnil
    rw [List.length_drop, List.length_nil] at hlength
    rw [List.eq_nil_of_length_eq_zero (show ts.length = 0 by omega), List.countP_nil]
  | case2 ts t rest hdrop hp ih =>
    obtain ⟨-, hrest, hall, -⟩ := h.of_drop hdrop
    have htake : (ts.take (ts.length / 2)).countP p = ts.length / 2 := by
      rw [List.countP_eq_length.2 (hall hp), List.length_take]
      omega
    rw [hcount ts (ts.length / 2), hdrop, List.countP_cons_of_pos hp, htake, ih hrest]
    omega
  | case3 ts t rest hdrop hp ih =>
    obtain ⟨htake, -, -, hnone⟩ := h.of_drop hdrop
    rw [hcount ts (ts.length / 2), hdrop, List.countP_eq_zero.2 (hnone hp), Nat.add_zero]
    exact ih htake

/-- What one property lets through of the tokens behind those that have another one. -/
theorem drop_take_countP (hp : ComesFirst p ts) (hq : ComesFirst q ts) :
    (ts.take (ts.countP p)).drop (ts.countP q) = ts.filter fun t => !q t && p t := by
  induction ts with
  | nil => rfl
  | cons t ts ih =>
    obtain ⟨hpt, hp⟩ := List.pairwise_cons.1 hp
    obtain ⟨hqt, hq⟩ := List.pairwise_cons.1 hq
    have hnone : ∀ {r : Token → Bool}, (∀ u ∈ ts, r u = true → r t = true) → r t = false → ts.countP r = 0 := by
      intro r hr ht
      exact List.countP_eq_zero.2 fun u hu hru => Bool.false_ne_true (ht.symm.trans (hr u hu hru))
    have ih := ih hp hq
    cases hpv : p t with
    | false =>
      rw [hnone hpt hpv] at ih
      simp [hpv, hnone hpt hpv, ← ih]
    | true =>
      cases hqv : q t with
      | false =>
        rw [hnone hqt hqv] at ih
        simp [hpv, hqv, hnone hqt hqv, ← ih]
      | true => simp [hpv, hqv, ih]

end TokenList

/-! ### Searching tiled tokens -/

namespace Tiled

variable {x y : Nat} {ts : List Token}

theorem pairwise (h : Tiled x ts y) : ts.Pairwise fun t u => t.stop ≤ u.start := by
  induction ts generalizing x with
  | nil => exact .nil
  | cons t ts ih =>
    obtain ⟨-, -, hrest⟩ := h
    exact List.pairwise_cons.2 ⟨fun u hu => (hrest.within hu).1, ih hrest⟩

theorem comesFirst_start (h : Tiled x ts y) (offset : Nat) : TokenList.ComesFirst (·.start < offset) ts := by
  refine h.pairwise.imp fun {t u} hle hlt => ?_
  have hstop : t.start ≤ t.stop := Nat.le_add_right _ _
  exact decide_eq_true (Nat.lt_of_le_of_lt (Nat.le_trans hstop hle) (of_decide_eq_true hlt))

theorem comesFirst_stop (h : Tiled x ts y) (offset : Nat) : TokenList.ComesFirst (·.stop ≤ offset) ts := by
  refine h.pairwise.imp fun {t u} hle hstop => ?_
  have hstart : u.start ≤ u.stop := Nat.le_add_right _ _
  exact decide_eq_true (Nat.le_trans (Nat.le_trans hle hstart) (of_decide_eq_true hstop))

/-- The index of an offset is the number of tokens that start before it. -/
theorem indexAt_eq (h : Tiled x ts y) (offset : Nat) : TokenList.indexAt ts offset = ts.countP (·.start < offset) :=
  TokenList.partitionPoint_eq_countP (h.comesFirst_start offset)

/-- The tokens within a span are the ones that it covers. -/
theorem within_eq (h : Tiled x ts y) (span : Span) : TokenList.within ts span = ts.filter fun t => span.covers t.span := by
  rw [TokenList.within, h.indexAt_eq, TokenList.partitionPoint_eq_countP (h.comesFirst_stop span.stop),
    TokenList.drop_take_countP (h.comesFirst_stop span.stop) (h.comesFirst_start span.start)]
  refine List.filter_congr fun t _ => congrArg (· && decide (t.stop ≤ span.stop)) ?_
  rw [← decide_not]
  exact decide_eq_decide.2 Nat.not_lt

end Tiled

namespace Arena

/-! ### Texts that are appended -/

/-- Appends texts one after the other, up to the first that does not fit. -/
def appendAll (a : Arena) : List Text → Except Span.RangeError (List Source × Arena)
  | [] => return ([], a)
  | t :: ts => do
    let (s, a) ← a.append t
    let (ss, a) ← a.appendAll ts
    return (s :: ss, a)

/-- The range is one of the text: it has its size and as many tokens, and the arena has both under it. -/
structure Ranges (a : Arena) (s : Source) (t : Text) : Prop where
  stop_eq : s.span.stop = s.span.start + t.size ∧ s.stop = s.first + (Lexer.lex t).length
  stop_le : s.span.stop ≤ a.text.size ∧ s.stop ≤ a.tokens.length
  slice : a.slice s.span = t
  tokens : (a.tokens.take s.stop).drop s.first = (Lexer.lex t).map (·.shift s.span.start)

/-- The arena holds the texts, one behind the other, under the ranges. -/
structure Holds (a : Arena) (ts : List Text) (ss : List Source) : Prop where
  text : a.text = ts.flatten
  whole : a.tokens.flatMap Token.text = a.text
  tiled : Tiled 0 a.tokens a.text.size
  sources : a.sources = ss
  ranges : List.Forall₂ a.Ranges ss ts
  starts : ∀ s, ss.head? = some s → s.span.start = 0 ∧ s.first = 0
  joins : ss.IsChain fun s s' => s'.span.start = s.span.stop ∧ s'.first = s.stop
  stops : ∀ s, ss.getLast? = some s → s.span.stop = a.text.size ∧ s.stop = a.tokens.length

variable {a b : Arena} {t : Text} {ts us : List Text} {s : Source} {ss ss' : List Source}

theorem append_of_le (h : a.text.size + t.size ≤ Span.maxOffset) : a.append t = .ok (a.nextSource t, a.push t) := by
  have hstop : (a.push t).tokens.length = (a.nextSource t).stop := by
    rw [tokens_push, List.length_append, List.length_map, nextSource]
  rw [append, Span.ofRange, if_neg (by omega), if_neg (by omega), hstop]
  rfl

theorem exists_append_of_lt (h : Span.maxOffset < a.text.size + t.size) : ∃ e, a.append t = .error e := by
  rw [append, Span.ofRange]
  split
  · exact ⟨_, rfl⟩
  · exact ⟨_, rfl⟩

theorem ranges_nextSource (a : Arena) (t : Text) : (a.push t).Ranges (a.nextSource t) t where
  stop_eq := ⟨rfl, rfl⟩
  stop_le := by
    rw [text_push, tokens_push, Text.size_append, List.length_append, List.length_map]
    exact ⟨Nat.le_refl _, Nat.le_refl _⟩
  slice := by
    have hslice := Text.slice_append a.text t []
    rwa [List.append_nil] at hslice
  tokens := a.tokens_nextSource t

/-- What is appended behind a range leaves what is found under it. -/
theorem Ranges.push (h : a.Ranges s t) (u : Text) : (a.push u).Ranges s t where
  stop_eq := h.stop_eq
  stop_le := by
    rw [text_push, tokens_push, Text.size_append, List.length_append]
    exact ⟨Nat.le_trans h.stop_le.1 (Nat.le_add_right _ _), Nat.le_trans h.stop_le.2 (Nat.le_add_right _ _)⟩
  slice := (Text.slice_append_right h.stop_le.1 u).trans h.slice
  tokens := by
    rw [tokens_push, List.take_append_of_le_length h.stop_le.2, h.tokens]

theorem Holds.empty : empty.Holds [] [] := ⟨rfl, rfl, rfl, rfl, .nil, nofun, .nil, nofun⟩

theorem Holds.covering (h : a.Holds ts ss) : Covering a.text a.tokens := by
  have hcovering := h.tiled.covering
  rwa [h.whole] at hcovering

/-- One more text has its range behind the others. -/
theorem Holds.push (h : a.Holds ts ss) (t : Text) : (a.push t).Holds (ts ++ [t]) (ss ++ [a.nextSource t]) where
  text := by rw [text_push, h.text, List.flatten_append, List.flatten_singleton]
  whole := by
    rw [tokens_push, List.flatMap_append, h.whole, text_push]
    exact congrArg (a.text ++ ·) (a.flatMap_tokensOf t)
  tiled := by
    rw [text_push, Text.size_append]
    exact h.tiled.append (a.tiled_tokensOf t)
  sources := congrArg (· ++ [a.nextSource t]) h.sources
  ranges := List.rel_append (h.ranges.imp fun _ _ hr => hr.push t) (.cons (a.ranges_nextSource t) .nil)
  starts s hs := by
    cases ss with
    | nil =>
      cases hs
      -- The first text stands at the start of an arena that holds none.
      cases h.ranges
      have htext : a.text = [] := h.text
      have htokens : a.tokens = [] := h.covering.none_iff.2 htext
      simp [nextSource, htext, htokens]
    | cons s' ss => exact h.starts s hs
  joins := List.isChain_append.2 ⟨h.joins, .singleton _, fun s hs s' hs' => by
    cases hs'
    exact ⟨(h.stops s hs).1.symm, (h.stops s hs).2.symm⟩⟩
  stops s hs := by
    rw [List.getLast?_concat, Option.some.injEq] at hs
    rw [← hs, text_push, tokens_push, Text.size_append, List.length_append, List.length_map]
    exact ⟨rfl, rfl⟩

/-! ### Any number of texts -/

theorem appendAll_cons_eq_ok_iff : a.appendAll (t :: ts) = .ok (ss, b) ↔ a.text.size + t.size ≤ Span.maxOffset ∧
    ∃ ss', ss = a.nextSource t :: ss' ∧ (a.push t).appendAll ts = .ok (ss', b) := by
  by_cases hfits : a.text.size + t.size ≤ Span.maxOffset
  · simp only [appendAll, append_of_le hfits, bind, Except.bind]
    cases hrest : (a.push t).appendAll ts with
    | error e => simp
    | ok r =>
      obtain ⟨ss', c⟩ := r
      simp only [pure, Except.pure, Except.ok.injEq, Prod.mk.injEq, hfits, true_and]
      constructor
      · rintro ⟨rfl, rfl⟩
        exact ⟨ss', rfl, rfl, rfl⟩
      · rintro ⟨ss', rfl, rfl, rfl⟩
        exact ⟨rfl, rfl⟩
  · obtain ⟨e, he⟩ := exists_append_of_lt (Nat.lt_of_not_le hfits)
    simp [appendAll, he, bind, Except.bind, hfits]

/-- Texts can be appended when they fit together. -/
theorem exists_appendAll_iff (h : a.text.size ≤ Span.maxOffset) :
    (∃ ss b, a.appendAll ts = .ok (ss, b)) ↔ a.text.size + Text.size ts.flatten ≤ Span.maxOffset := by
  induction ts generalizing a with
  | nil => exact ⟨fun _ => h, fun _ => ⟨[], a, rfl⟩⟩
  | cons t ts ih =>
    have hsize : (a.push t).text.size = a.text.size + t.size := Text.size_append _ _
    rw [List.flatten_cons, Text.size_append]
    constructor
    · rintro ⟨ss, b, hrun⟩
      obtain ⟨hfits, ss', -, hrest⟩ := appendAll_cons_eq_ok_iff.1 hrun
      have hle := (ih (a := a.push t) (by omega)).1 ⟨ss', b, hrest⟩
      omega
    · intro hle
      obtain ⟨ss, b, hrest⟩ := (ih (a := a.push t) (by omega)).2 (by omega)
      exact ⟨_, b, appendAll_cons_eq_ok_iff.2 ⟨by omega, ss, rfl, hrest⟩⟩

/-- More texts have their ranges behind the others. -/
theorem Holds.appendAll (h : a.Holds ts ss) (hrun : a.appendAll us = .ok (ss', b)) : b.Holds (ts ++ us) (ss ++ ss') := by
  induction us generalizing a ts ss ss' with
  | nil =>
    cases hrun
    rwa [List.append_nil, List.append_nil]
  | cons u us ih =>
    obtain ⟨-, ss', rfl, hrest⟩ := appendAll_cons_eq_ok_iff.1 hrun
    rw [List.append_cons ts, List.append_cons ss]
    exact ih (h.push u) hrest

/-- Text and tokens are only ever appended. -/
theorem prefix_of_appendAll (h : a.appendAll ts = .ok (ss, b)) : a.text <+: b.text ∧ a.tokens <+: b.tokens := by
  induction ts generalizing a ss with
  | nil =>
    cases h
    exact ⟨List.prefix_refl _, List.prefix_refl _⟩
  | cons t ts ih =>
    obtain ⟨-, ss', rfl, hrest⟩ := appendAll_cons_eq_ok_iff.1 h
    obtain ⟨htext, htokens⟩ := ih hrest
    exact ⟨(List.prefix_append _ _).trans htext, (List.prefix_append _ _).trans htokens⟩

/-- What is appended together is appended one part after the other. -/
theorem exists_of_appendAll_append (h : a.appendAll (ts ++ us) = .ok (ss, b)) : ∃ c ss₁ ss₂,
    a.appendAll ts = .ok (ss₁, c) ∧ c.appendAll us = .ok (ss₂, b) ∧ ss = ss₁ ++ ss₂ := by
  induction ts generalizing a ss with
  | nil => exact ⟨a, [], ss, rfl, h, rfl⟩
  | cons t ts ih =>
    obtain ⟨hfits, ss', rfl, hrest⟩ := appendAll_cons_eq_ok_iff.1 h
    obtain ⟨c, ss₁, ss₂, h₁, h₂, rfl⟩ := ih hrest
    exact ⟨c, _, ss₂, appendAll_cons_eq_ok_iff.2 ⟨hfits, ss₁, rfl, h₁⟩, h₂, rfl⟩

theorem length_of_appendAll (h : a.appendAll ts = .ok (ss, b)) : ss.length = ts.length := by
  induction ts generalizing a ss with
  | nil =>
    cases h
    rfl
  | cons t ts ih =>
    obtain ⟨-, ss', rfl, hrest⟩ := appendAll_cons_eq_ok_iff.1 h
    exact congrArg (· + 1) (ih hrest)

/-- Texts fit into an arena up to the largest offset.  Then the arena holds each of them under the range that was returned
for it, and what it held after the first of them is the beginning of what it holds after all.  Its tokens cover its text.
The index of an offset is the number of tokens before it, and the tokens within a span are all those that it covers. -/
theorem appendAll_spec (ts : List Text) :
    ((∃ ss a, Arena.empty.appendAll ts = .ok (ss, a)) ↔ Text.size ts.flatten ≤ Span.maxOffset) ∧
      ∀ ss a, Arena.empty.appendAll ts = .ok (ss, a) → a.Holds ts ss ∧ Covering a.text a.tokens ∧
        (∀ n, ∃ b, Arena.empty.appendAll (ts.take n) = .ok (ss.take n, b) ∧ b.text <+: a.text ∧
          b.tokens <+: a.tokens) ∧
        (∀ offset, TokenList.indexAt a.tokens offset = a.tokens.countP (·.start < offset)) ∧
        ∀ span, TokenList.within a.tokens span = a.tokens.filter fun t => span.covers t.span := by
  have hsize : Arena.empty.text.size = 0 := rfl
  refine ⟨?_, fun ss a hrun => ?_⟩
  · rw [exists_appendAll_iff (Nat.zero_le _), hsize, Nat.zero_add]
  · have hholds : a.Holds ts ss := Holds.empty.appendAll hrun
    refine ⟨hholds, hholds.covering, fun n => ?_, hholds.tiled.indexAt_eq, hholds.tiled.within_eq⟩
    obtain ⟨b, ss₁, ss₂, h₁, h₂, rfl⟩ := exists_of_appendAll_append ((List.take_append_drop n ts).symm ▸ hrun)
    have htake : (ss₁ ++ ss₂).take n = ss₁ := by
      have hfirst := length_of_appendAll h₁
      have hlast := length_of_appendAll h₂
      rw [List.length_take] at hfirst
      rw [List.length_drop] at hlast
      rcases Nat.le_total n ts.length with hle | hle
      · exact List.take_left' (by omega)
      · rw [List.eq_nil_of_length_eq_zero (show ss₂.length = 0 by omega), List.append_nil,
          List.take_of_length_le (by omega)]
    exact ⟨b, by rw [htake, h₁], prefix_of_appendAll h₂⟩

end Arena

end Graft
