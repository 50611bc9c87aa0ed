/-
Integers that are written and read back.

An integer is written in decimal without leading zeros, so that it is read in base ten.  It is read back when its
magnitude is in range; the magnitude is bounded before the sign, so the smallest integer of 64 bits is not read back.
An integer in source code may be written in other bases: its first characters name the base, whatever digits follow.

* `integer?_ofNat` — a magnitude in range is read back with its sign;
* `integer?_ofNat_eq_none` — any other one is not;
* `Numeral`, `Writes` — the base and the digits of an integer in source code, and the number that digits write;
* `integer?_of_mem_lex` — an integer of a source is read as the number that its digits write.
-/
import Graft.Literal.Number
import Graft.Proofs.Token.Modes
import Mathlib.Data.Nat.Digits.Defs

namespace Graft

namespace Text

theorem ofNat_eq (n : Nat) : ofNat n = Nat.toDigits 10 n := Nat.toList_repr

theorem isDigit_of_mem_ofNat {n : Nat} {c : Char} (h : c ∈ ofNat n) : c.isDigit = true := by
  rw [ofNat_eq] at h
  exact Nat.isDigit_of_mem_toDigits (by decide) (by decide) h

theorem ofNat_ne_nil (n : Nat) : ofNat n ≠ [] := by
  rw [ofNat_eq]
  exact Nat.toDigits_ne_nil

/-- The first digit of a positive number is not zero. -/
theorem head?_ofNat_ne {n : Nat} (h : 0 < n) : (ofNat n).head? ≠ some '0' := by
  rw [ofNat_eq]
  induction n using Nat.strongRecOn with
  | _ n ih =>
    by_cases hlt : n < 10
    · rw [Nat.toDigits_of_lt_base hlt]
      have hall : ∀ m, m < 10 → 0 < m → [m.digitChar].head? ≠ some '0' := by decide
      exact hall n hlt h
    · have hle : 10 ≤ n := Nat.le_of_not_lt hlt
      have hpos : 0 < n / 10 := Nat.div_pos hle (by decide)
      have hhead := ih (n / 10) (Nat.div_lt_self h (by decide)) hpos
      rw [Nat.toDigits_of_base_le (by decide) hle, List.head?_append]
      cases hdigits : (Nat.toDigits 10 (n / 10)).head? with
      | none => exact absurd (List.head?_eq_none_iff.1 hdigits) Nat.toDigits_ne_nil
      | some c => rwa [hdigits] at hhead

end Text

namespace Literal

/-- The value of a digit. -/
theorem hexDigit?_of_isDigit {c : Char} (h : c.isDigit = true) : hexDigit? c = some (c.toNat - '0'.toNat) := by
  rw [hexDigit?, if_pos h]

theorem isDigitOf_ten {c : Char} (h : c.isDigit = true) : isDigitOf 10 c = true := by
  rw [isDigitOf, hexDigit?_of_isDigit h, Option.any_some, decide_eq_true_eq]
  simp only [Char.isDigit, Bool.and_eq_true, decide_eq_true_eq, ge_iff_le, UInt32.le_iff_toNat_le] at h
  have hle : c.toNat ≤ '9'.toNat := h.2
  have hge : '0'.toNat ≤ c.toNat := h.1
  have hzero : '0'.toNat = 48 := rfl
  have hnine : '9'.toNat = 57 := rfl
  omega

/-- Decimal digits make the number that they write. -/
theorem ofDigits_eq {t : Text} (h : ∀ c ∈ t, c.isDigit = true) : ofDigits 10 t = Nat.ofDigitChars 10 t 0 := by
  have hfold : ∀ k, t.foldl (fun n c => n * 10 + (hexDigit? c).getD 0) k = Nat.ofDigitChars 10 t k := by
    induction t with
    | nil => exact fun _ => rfl
    | cons c t ih =>
      intro k
      rw [List.foldl_cons, Nat.ofDigitChars_cons, ih fun d hd => h d (List.mem_cons_of_mem c hd),
        hexDigit?_of_isDigit (h c List.mem_cons_self), Option.getD_some, Nat.mul_comm]
  exact hfold 0

theorem toLower_of_isDigit {c : Char} (h : c.isDigit = true) : c.toLower = c := by
  simp only [Char.isDigit, Bool.and_eq_true, decide_eq_true_eq] at h
  refine dif_neg fun hupper => ?_
  have hle : c.val.toNat ≤ '9'.val.toNat := UInt32.le_iff_toNat_le.1 h.2
  have hge : 'A'.val.toNat ≤ c.val.toNat := UInt32.le_iff_toNat_le.1 hupper.1
  exact absurd (Nat.le_trans hge hle) (by decide)

theorem lower_of_isDigit {t : Text} (h : ∀ c ∈ t, c.isDigit = true) : Text.lower t = t := by
  rw [Text.lower, List.map_congr_left fun c hc => toLower_of_isDigit (h c hc), List.map_id']

/-- Digits have neither underscores nor upper case letters. -/
theorem lower_joinDigits {t : Text} (h : ∀ c ∈ t, c.isDigit = true) : Text.lower (joinDigits t) = t := by
  have hjoin : joinDigits t = t := by
    refine List.filter_eq_self.2 fun c hc => decide_eq_true ?_
    rintro rfl
    cases h '_' hc
  rw [hjoin, lower_of_isDigit h]

/-- A number without leading zeros is read in base ten. -/
theorem radix_ofNat (n : Nat) : radix (Text.ofNat n) = (10, Text.ofNat n) := by
  rcases Nat.eq_zero_or_pos n with rfl | hpos
  · rfl
  · have hhead := Text.head?_ofNat_ne hpos
    cases ht : Text.ofNat n with
    | nil => rfl
    | cons c t =>
      rw [ht] at hhead
      have hc : c ≠ '0' := fun h => hhead (by rw [h]; rfl)
      unfold radix
      split <;> simp_all

theorem integer?_ofNat_eq (n : Nat) (negative : Bool) : integer? (Text.ofNat n) negative =
    if maxInt < n then none else some (if negative then -(n : Int) else n) := by
  have hdigits : ∀ c ∈ Text.ofNat n, c.isDigit = true := fun c hc => Text.isDigit_of_mem_ofNat hc
  have hvalue : ofDigits 10 (Text.ofNat n) = n := by
    rw [ofDigits_eq hdigits, Text.ofNat_eq]
    exact Nat.ofDigitChars_ten_toDigits
  have hall : (Text.ofNat n).all (isDigitOf 10) = true := List.all_eq_true.2 fun c hc => isDigitOf_ten (hdigits c hc)
  have hempty : (Text.ofNat n).isEmpty = false := by
    rw [List.isEmpty_eq_false_iff]
    exact Text.ofNat_ne_nil n
  simp only [integer?, lower_joinDigits hdigits, radix_ofNat, hvalue, hall, hempty, Bool.not_true, Bool.or_false,
    Bool.false_eq_true, if_false]

/-- A magnitude in range is read back with its sign. -/
theorem integer?_ofNat {n : Nat} (h : n ≤ maxInt) (negative : Bool) :
    integer? (Text.ofNat n) negative = some (if negative then -(n : Int) else n) := by
  rw [integer?_ofNat_eq, if_neg (Nat.not_lt.2 h)]

/-- A magnitude out of range is not read back, whatever its sign. -/
theorem integer?_ofNat_eq_none {n : Nat} (h : maxInt < n) (negative : Bool) :
    integer? (Text.ofNat n) negative = none := by
  rw [integer?_ofNat_eq, if_pos h]

/-! ### Digits of a base -/

/-- The digits, in any case of letters and the most significant first, are those of `m` in the base. -/
def Writes (base : Nat) (digits : Text) (m : Nat) : Prop :=
  ∃ vs : List Nat, vs ≠ [] ∧ (∀ v ∈ vs, v < base) ∧ Text.lower digits = vs.map Nat.digitChar ∧
    m = Nat.ofDigits base vs.reverse

theorem hexDigit?_digitChar : ∀ v < 16, hexDigit? v.digitChar = some v := by decide

theorem toNat_le_of_hexDigit? {c : Char} {v : Nat} (h : hexDigit? c = some v) : c.toNat ≤ 102 := by
  have hle : ∀ {d : Char}, c ≤ d → c.toNat ≤ d.toNat := fun h => UInt32.le_iff_toNat_le.1 h
  unfold hexDigit? at h
  split at h
  · rename_i hdigit
    simp only [Char.isDigit, Bool.and_eq_true, decide_eq_true_eq] at hdigit
    exact Nat.le_trans (hle (d := '9') hdigit.2) (by decide)
  split at h
  · rename_i hletter
    exact hle hletter.2
  split at h
  · rename_i hletter
    exact Nat.le_trans (hle hletter.2) (by decide)
  · cases h

/-- In lower case a digit is the one character of its value. -/
theorem digitChar_of_hexDigit? {c : Char} {v : Nat} (h : hexDigit? c.toLower = some v) : c.toLower = v.digitChar := by
  have hascii : ∀ n < 128, ∀ v ∈ hexDigit? (Char.ofNat n).toLower, (Char.ofNat n).toLower = v.digitChar := by decide
  by_cases hc : c.toNat < 128
  · have hdigit := hascii c.toNat hc
    rw [Char.ofNat_toNat] at hdigit
    exact hdigit v h
  · -- No other character changes its case, and none is a digit.
    have hlower : c.toLower = c :=
      dif_neg fun hupper => hc (Nat.lt_of_le_of_lt (UInt32.le_iff_toNat_le.1 hupper.2) (by decide))
    rw [hlower] at h
    exact absurd (toNat_le_of_hexDigit? h) (by omega)

theorem ofDigits_digitChar {base : Nat} {vs : List Nat} (h : ∀ v ∈ vs, v < 16) :
    ofDigits base (vs.map Nat.digitChar) = Nat.ofDigits base vs.reverse := by
  have hfold : ∀ k, (vs.map Nat.digitChar).foldl (fun n c => n * base + (hexDigit? c).getD 0) k =
      vs.foldl (fun n v => v + base * n) k := by
    induction vs with
    | nil => exact fun _ => rfl
    | cons v vs ih =>
      intro k
      obtain ⟨hv, hvs⟩ := List.forall_mem_cons.1 h
      rw [List.map_cons, List.foldl_cons, List.foldl_cons, hexDigit?_digitChar v hv, Option.getD_some, ih hvs,
        Nat.mul_comm, Nat.add_comm]
  rw [Nat.ofDigits_eq_foldr, List.foldr_reverse]
  exact hfold 0

/-- Digits of the base are the characters of numbers below it. -/
theorem exists_digits {base : Nat} {digits : Text} (h : ∀ c ∈ Text.lower digits, isDigitOf base c = true) :
    ∃ vs : List Nat, (∀ v ∈ vs, v < base) ∧ Text.lower digits = vs.map Nat.digitChar := by
  induction digits with
  | nil => exact ⟨[], nofun, rfl⟩
  | cons c digits ih =>
    obtain ⟨hc, hdigits⟩ := List.forall_mem_cons.1 h
    obtain ⟨v, hv, hlt⟩ := (Option.any_eq_true _ _).1 hc
    obtain ⟨vs, hvs, hlower⟩ := ih hdigits
    refine ⟨v :: vs, List.forall_mem_cons.2 ⟨of_decide_eq_true hlt, hvs⟩, ?_⟩
    rw [List.map_cons, ← digitChar_of_hexDigit? hv, ← hlower]
    rfl

/-- What digits write is what is read of them in lower case. -/
theorem writes_iff {base : Nat} (hbase : base ≤ 16) {digits : Text} {m : Nat} : Writes base digits m ↔
    Text.lower digits ≠ [] ∧ (∀ c ∈ Text.lower digits, isDigitOf base c = true) ∧
      m = ofDigits base (Text.lower digits) := by
  have hvalue : ∀ {vs : List Nat}, (∀ v ∈ vs, v < base) →
      ofDigits base (vs.map Nat.digitChar) = Nat.ofDigits base vs.reverse :=
    fun hvs => ofDigits_digitChar fun v hv => Nat.lt_of_lt_of_le (hvs v hv) hbase
  constructor
  · rintro ⟨vs, hne, hvs, hlower, rfl⟩
    rw [hlower]
    refine ⟨fun hnil => hne (List.map_eq_nil_iff.1 hnil), ?_, (hvalue hvs).symm⟩
    intro c hc
    obtain ⟨v, hv, rfl⟩ := List.mem_map.1 hc
    rw [isDigitOf, hexDigit?_digitChar v (Nat.lt_of_lt_of_le (hvs v hv) hbase)]
    exact decide_eq_true (hvs v hv)
  · rintro ⟨hne, hall, rfl⟩
    obtain ⟨vs, hvs, hlower⟩ := exists_digits hall
    rw [hlower] at hne ⊢
    exact ⟨vs, fun hnil => hne (by rw [hnil]; rfl), hvs, hlower, hvalue hvs⟩

/-! ### Numerals -/

/-- `Numeral t base digits`: the numeral `t`, whose underscores have been dropped, has the digits in the base. -/
inductive Numeral : Text → Nat → Text → Prop
  | hexadecimal {x : Char} {digits : Text} (hx : x = 'x' ∨ x = 'X') : Numeral ('0' :: x :: digits) 16 digits
  | binary {b : Char} {digits : Text} (hb : b = 'b' ∨ b = 'B') : Numeral ('0' :: b :: digits) 2 digits
  | octal {o : Char} {digits : Text} (ho : o = 'o' ∨ o = 'O') : Numeral ('0' :: o :: digits) 8 digits
  | leadingZero {digits : Text} (hne : digits ≠ []) (h : ∀ c ∈ digits, c.isDigit = true) :
    Numeral ('0' :: digits) 8 digits
  | decimal {digits : Text} (h : ∀ c ∈ digits, c.isDigit = true) (hzero : digits.head? = some '0' → digits = ['0']) :
    Numeral digits 10 digits

/-- The base and the digits of a numeral are found in lower case. -/
theorem radix_of_numeral {t digits : Text} {base : Nat} (h : Numeral t base digits) :
    radix (Text.lower t) = (base, Text.lower digits) ∧ base ≤ 16 := by
  cases h with
  | hexadecimal hx => rcases hx with rfl | rfl <;> exact ⟨rfl, by decide⟩
  | binary hb => rcases hb with rfl | rfl <;> exact ⟨rfl, by decide⟩
  | octal ho => rcases ho with rfl | rfl <;> exact ⟨rfl, by decide⟩
  | leadingZero hne hdigits =>
    obtain ⟨d, ds, rfl⟩ := List.exists_cons_of_ne_nil hne
    have hzero : Text.lower ('0' :: d :: ds) = '0' :: Text.lower (d :: ds) := rfl
    rw [hzero, lower_of_isDigit hdigits]
    have hd := hdigits d List.mem_cons_self
    refine ⟨?_, by decide⟩
    unfold radix
    split
    all_goals simp_all
  | decimal hdigits hzero =>
    rw [lower_of_isDigit hdigits]
    refine ⟨?_, by decide⟩
    cases t with
    | nil => rfl
    | cons c t =>
      by_cases hc : c = '0'
      · rw [hzero (by rw [hc]; rfl)]
        rfl
      · unfold radix
        split <;> simp_all

/-- A numeral is read as the number that its digits write, when they write one and it fits. -/
theorem integer?_eq_some_iff {t digits : Text} {base : Nat} {negative : Bool} {v : Int}
    (h : Numeral (joinDigits t) base digits) : integer? t negative = some v ↔
    ∃ m, Writes base digits m ∧ m ≤ maxInt ∧ v = if negative then -(m : Int) else m := by
  obtain ⟨hradix, hbase⟩ := radix_of_numeral h
  have hvalid : ((Text.lower digits).isEmpty || !(Text.lower digits).all (isDigitOf base)) = true ↔
      ¬(Text.lower digits ≠ [] ∧ ∀ c ∈ Text.lower digits, isDigitOf base c = true) := by
    rw [Bool.or_eq_true, List.isEmpty_iff, Bool.not_eq_true', Bool.eq_false_iff, Ne, List.all_eq_true,
      Classical.not_and_iff_not_or_not, Classical.not_not]
  simp only [integer?, hradix, writes_iff hbase]
  constructor
  · intro hread
    split at hread
    · cases hread
    · rename_i hdigits
      obtain ⟨hne, hall⟩ := Classical.not_not.1 fun hinvalid => hdigits (hvalid.2 hinvalid)
      split at hread
      · cases hread
      · rename_i hle
        exact ⟨_, ⟨hne, hall, rfl⟩, Nat.le_of_not_lt hle, (Option.some.inj hread).symm⟩
  · rintro ⟨m, ⟨hne, hall, rfl⟩, hle, rfl⟩
    rw [if_neg fun hinvalid => hvalid.1 hinvalid ⟨hne, hall⟩, if_neg (Nat.not_lt.2 hle)]

end Literal

namespace TokenTable

open Pattern Literal

/-- A decimal literal is octal behind a leading zero. -/
theorem exists_numeral_of_decimalDigits {t : Text} (h : Matches decimalDigits t) :
    ∃ base digits, Numeral (joinDigits t) base digits := by
  obtain ⟨s, t, rfl, hs, ht⟩ := matches_seq.1 h
  obtain ⟨c, rfl, hc⟩ := matches_one.1 hs
  have hjoin : joinDigits ([c] ++ t) = c :: joinDigits t :=
    List.filter_cons_of_pos (decide_eq_true fun h => by rw [h] at hc; cases hc)
  have hdigits : ∀ d ∈ joinDigits t, d.isDigit = true := by
    intro d hd
    obtain ⟨hmem, hne⟩ := List.mem_filter.1 hd
    have hpart := matches_star_one.1 ht d hmem
    rw [isDigitPart, Bool.or_eq_true, beq_iff_eq] at hpart
    exact hpart.resolve_right (of_decide_eq_true hne)
  rw [hjoin]
  by_cases hzero : c = '0' ∧ joinDigits t ≠ []
  · obtain ⟨rfl, hne⟩ := hzero
    exact ⟨8, _, .leadingZero hne hdigits⟩
  · refine ⟨10, _, .decimal (List.forall_mem_cons.2 ⟨hc, hdigits⟩) fun hhead => ?_⟩
    obtain rfl : c = '0' := Option.some.inj hhead
    rw [Classical.not_not.1 fun hne => hzero ⟨rfl, hne⟩]

/-- A literal of another base begins with a zero and a letter for the base. -/
theorem joinDigits_of_base {cs t : Text} {p : Pattern} (h : Matches (all [lit "0".toList, oneOf cs, p]) t)
    (hcs : '_' ∉ cs) : ∃ x ∈ cs, ∃ digits, joinDigits t = '0' :: x :: digits := by
  obtain ⟨s₁, s₂, rfl, hzero, h⟩ := matches_seq.1 h
  obtain ⟨s₂, s₃, rfl, hletter, -⟩ := matches_seq.1 h
  obtain ⟨x, rfl, hx⟩ := matches_one.1 hletter
  have hmem : x ∈ cs := List.contains_iff_mem.1 hx
  have hne : x ≠ '_' := fun h => hcs (h ▸ hmem)
  refine ⟨x, hmem, joinDigits s₃, ?_⟩
  rw [matches_lit.1 hzero]
  simp [joinDigits, hne]

/-- Each integer literal is a numeral in one of the bases. -/
theorem exists_numeral {t : Text} (h : Matches intLiteral t) : ∃ base digits, Numeral (joinDigits t) base digits := by
  obtain ⟨p, hp, hm⟩ := matches_any.1 h
  simp only [List.mem_cons, List.not_mem_nil, or_false] at hp
  rcases hp with rfl | rfl | rfl | rfl
  · exact exists_numeral_of_decimalDigits hm
  · obtain ⟨x, hx, digits, ht⟩ := joinDigits_of_base hm (by decide)
    rw [ht]
    exact ⟨16, digits, .hexadecimal (by simpa using hx)⟩
  · obtain ⟨x, hx, digits, ht⟩ := joinDigits_of_base hm (by decide)
    rw [ht]
    exact ⟨2, digits, .binary (by simpa using hx)⟩
  · obtain ⟨x, hx, digits, ht⟩ := joinDigits_of_base hm (by decide)
    rw [ht]
    exact ⟨8, digits, .octal (by simpa using hx)⟩

end TokenTable

namespace Literal

/-- An integer of a source is a numeral once its underscores are dropped, and it is read as the number that its digits
write, with the sign that stands before it.  There is none when the digits are missing, when one is not of the base or
when the number does not fit. -/
theorem integer?_of_mem_lex {src : Text} {u : Token} (hu : u ∈ Lexer.lex src) (hkind : u.kind = .int)
    (negative : Bool) :
    (∃ base digits, Numeral (u.text.filter (· ≠ '_')) base digits) ∧
      ∀ base digits, Numeral (u.text.filter (· ≠ '_')) base digits → ∀ v,
        integer? u.text negative = some v ↔
          ∃ m, Writes base digits m ∧ m ≤ 2 ^ 63 - 1 ∧ v = if negative then -(m : Int) else m := by
  obtain ⟨p, hp, hmatch⟩ := Lexer.exists_rule_of_mem_lex hu (by rw [hkind]; decide)
  rw [hkind] at hp
  obtain rfl : p = TokenTable.intLiteral := by simpa [TokenTable.rules] using hp
  exact ⟨TokenTable.exists_numeral hmatch, fun _ _ h _ => integer?_eq_some_iff h⟩

/-- The smallest integer that can be read, in hexadecimal. -/
theorem integer?_of_mem_lex_hexadecimal :
    let u : Token := ⟨.int, 14, "0X7fFF_FFFF_FFFF_FFFF".toList⟩
    u ∈ Lexer.lex "<?php return -0X7fFF_FFFF_FFFF_FFFF;".toList ∧
      (integer? u.text true = some (-9223372036854775807) ↔
        ∃ m, Writes 16 "7fFFFFFFFFFFFFFF".toList m ∧ m ≤ 2 ^ 63 - 1 ∧ -9223372036854775807 = -(m : Int)) := by
  have hu : (⟨.int, 14, "0X7fFF_FFFF_FFFF_FFFF".toList⟩ : Token) ∈
      Lexer.lex "<?php return -0X7fFF_FFFF_FFFF_FFFF;".toList := by decide +kernel
  exact ⟨hu, (integer?_of_mem_lex hu rfl true).2 16 _ (.hexadecimal (.inr rfl)) _⟩

end Literal

end Graft
