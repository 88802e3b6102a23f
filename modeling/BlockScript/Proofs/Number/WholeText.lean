import BlockScript.Proofs.Expression.Numeral
import BlockScript.Proofs.Number.Interval

/-! # Whole numbers as the script writes them

A whole number is written with digits alone. Up to 2^53 they are the digits of the number itself.
Above, where the format has even numbers only, they may be those of a neighbour, but never of one
that would be read back as 2^53 or less. -/

namespace BlockScript.Number

open Text Names

namespace Binary64

theorem scale_zero_fst (e : Int) : (scale 0 e).1 = 0 := by
  unfold scale
  split <;> simp

/-- The value of a finite number, if it is a whole one. -/
def whole? : Binary64 → Option Int
  | .finite negative m e =>
      if (scale m e).1 % (scale m e).2 = 0 then
        some (withSign negative ((scale m e).1 / (scale m e).2))
      else none
  | _ => none

end Binary64

namespace Interval

variable {i : Interval} {tie : Tie}

/-- What is found on a grid of whole numbers lies in the interval. -/
theorem holds_of_onGrid {place digits : Nat} (h : i.onGrid tie place = some digits) :
    holds i.closed i.low i.high (digits * 10 ^ place * i.den) = true := by
  have inside := (holds_step_iff digits place).mpr (contains_of_onGrid h).2
  simpa [step_natCast, Nat.mul_assoc] using inside

/-- A whole number lies on the grid of whole numbers. -/
theorem isSome_onGrid_zero {n : Nat} (hn : 0 < n) (hd : 0 < i.den) (mid : i.mid = n * i.den)
    (low : i.low < i.mid) (high : i.mid < i.high) : (i.onGrid tie 0).isSome = true := by
  have inside : holds i.closed i.low i.high (n * i.den) = true := by
    rw [← mid, holds]
    split <;> simp <;> omega
  have below : i.mid / i.den = n := by rw [mid, Nat.mul_div_cancel _ hd]
  simp [onGrid, below, hn, inside]
  split <;> simp_all

end Interval

/-- The first hit of a search is not behind any other. -/
theorem exists_le_of_findSome? {α : Type} {f : Nat → Option α} {count k : Nat} {a : α}
    (h : (List.range count).findSome? f = some a) (hit : k < count → (f k).isSome = true) :
    ∃ first ≤ k, f first = some a := by
  by_cases hk : k < count
  · -- The search is over when it comes to `k`.
    have early : ((List.range (k + 1)).findSome? f).isSome = true :=
      List.findSome?_isSome_iff.mpr ⟨k, List.self_mem_range_succ, hit hk⟩
    obtain ⟨b, hb⟩ := Option.isSome_iff_exists.mp early
    have ahead : List.range (k + 1) <+: List.range count := by
      obtain ⟨more, rfl⟩ := Nat.exists_eq_add_of_le (Nat.succ_le_of_lt hk)
      have joined : List.range (k + 1 + more) = List.range (k + 1) ++ _ := List.range_add
      exact joined ▸ List.prefix_append _ _
    obtain ⟨first, hf, hfb⟩ := List.exists_of_findSome?_eq_some hb
    obtain rfl : b = a := Option.some.inj ((ahead.findSome?_eq_some hb).symm.trans h)
    exact ⟨first, by simpa [Nat.lt_succ_iff] using hf, hfb⟩
  · obtain ⟨first, hf, hfa⟩ := List.exists_of_findSome?_eq_some h
    rw [List.mem_range] at hf
    exact ⟨first, by omega, hfa⟩

/-- The first grid that has a point in the interval of a whole number is a grid of whole numbers,
unless the number has more than seventeen digits and no grid has any. -/
theorem exists_shortest (tie : Tie) {m n : Nat} {e : Int} {i : Interval}
    (hi : Interval.ofFinite m e = i) (hn : 0 < n) (hd : 0 < i.den) (mid : i.mid = n * i.den)
    (low : i.low < i.mid) (high : i.mid < i.high) :
    (∃ digits place : Nat, shortest tie m e = (digits, (place : Int)) ∧
      Interval.holds i.closed i.low i.high (digits * 10 ^ place * i.den) = true) ∨
    10 ^ 17 ≤ n ∧ shortest tie m e = (m, e) := by
  obtain ⟨top, htop⟩ : ∃ top, (Nat.toDigits 10 n).length = top + 1 :=
    Nat.exists_eq_succ_of_ne_zero (by simp [Nat.toDigits_ne_nil])
  have leading : i.leadingPlace = top := by
    have quotient : i.mid / i.den = n := by rw [mid, Nat.mul_div_cancel _ hd]
    have fits : i.den ≤ i.mid := by
      rw [mid]
      exact Nat.le_mul_of_pos_left _ hn
    simp only [Interval.leadingPlace, fits, if_true, quotient, htop]
    omega
  simp only [shortest, hi, leading]
  generalize hf : (fun (k : Nat) =>
    (i.onGrid tie ((top : Int) - k)).map fun digits => (digits, (top : Int) - k)) = f
  have last : (f top).isSome = true := by
    simpa [← hf] using Interval.isSome_onGrid_zero hn hd mid low high
  cases hit : (List.range 17).findSome? f with
  | some found =>
      obtain ⟨k, hk, hfk⟩ := exists_le_of_findSome? hit fun _ => last
      obtain ⟨place, rfl⟩ := Nat.exists_eq_add_of_le hk
      have exponent : ((k + place : Nat) : Int) - k = place := by omega
      simp only [← hf, exponent] at hfk
      obtain ⟨digits, hgrid, rfl⟩ := Option.map_eq_some_iff.mp hfk
      obtain ⟨k, digits', he, rfl⟩ := exists_dropZeros 17 digits place
      refine .inl ⟨digits', place + k, by simpa using he, ?_⟩
      rw [Nat.add_comm, Nat.pow_add, ← Nat.mul_assoc]
      exact Interval.holds_of_onGrid hgrid
  | none =>
      have absent := List.findSome?_eq_none_iff.mp hit
      have long : 17 ≤ top := by
        by_contra short
        have none := absent top (List.mem_range.mpr (by omega))
        rw [none] at last
        exact Bool.noConfusion last
      refine .inr ⟨?_, rfl⟩
      rw [← Nat.not_lt, ← Nat.length_toDigits_le_iff (by decide) (by decide)]
      omega

/-- The digits of a whole number are off by half a unit of its significand at most, if they are no
more than seventeen. -/
theorem exists_shortest_near (tie : Tie) {m n unit den : Nat} {e : Int} (hn : 0 < n) (hd : 0 < den)
    (h : Binary64.scale 1 (e - 2) = (unit, den)) (value : 4 * m * unit = n * den) :
    (∃ digits place : Nat, shortest tie m e = (digits, (place : Int)) ∧
      (4 * m - 2) * unit ≤ digits * 10 ^ place * den ∧
      digits * 10 ^ place * den ≤ (4 * m + 2) * unit ∧
      (m % 2 = 1 → (4 * m - 2) * unit < digits * 10 ^ place * den)) ∨
    10 ^ 17 ≤ n ∧ shortest tie m e = (m, e) := by
  have positive : 0 < 4 * m * unit := value ▸ Nat.mul_pos hn hd
  have hm : 0 < 4 * m := Nat.pos_of_mul_pos_right positive
  have hu : 0 < unit := Nat.pos_of_mul_pos_left positive
  obtain ⟨below, hb, hb', hi⟩ : ∃ below, 1 ≤ below ∧ below ≤ 2 ∧ Interval.ofFinite m e =
      ⟨(4 * m - below) * unit, 4 * m * unit, (4 * m + 2) * unit, den, decide (m % 2 = 0)⟩ := by
    simp only [Interval.ofFinite, h]
    refine ⟨_, ?_, ?_, rfl⟩
    · split <;> omega
    · split <;> omega
  have low : (4 * m - below) * unit < 4 * m * unit := Nat.mul_lt_mul_of_pos_right (by omega) hu
  have high : 4 * m * unit < (4 * m + 2) * unit := Nat.mul_lt_mul_of_pos_right (by omega) hu
  have wide : (4 * m - 2) * unit ≤ (4 * m - below) * unit := Nat.mul_le_mul_right _ (by omega)
  rcases exists_shortest tie hi hn hd value low high with ⟨digits, place, he, hh⟩ | long
  · obtain ⟨above, below', strict⟩ := Interval.holds_iff.mp hh
    refine .inl ⟨digits, place, he, wide.trans above, below', fun odd => ?_⟩
    exact wide.trans_lt (strict (by simp [odd])).1
  · exact .inr long

/-- A whole number below 2^53 is the only one that near. -/
theorem exists_shortest_of_fraction (tie : Tie) {n : Nat} (k : Nat) (hn : 0 < n)
    (lt : n < 10 ^ 17) :
    ∃ digits place : Nat, shortest tie (n * 2 ^ k) (-k) = (digits, (place : Int)) ∧
      digits * 10 ^ place = n := by
  have unit : Binary64.scale 1 (-(k : Int) - 2) = (1, 2 ^ (k + 2)) := by
    rw [← Binary64.scale_neg_natCast]
    congr 1
    omega
  have den : 4 ≤ 2 ^ (k + 2) := by
    rw [Nat.pow_add]
    exact Nat.le_mul_of_pos_left _ (Nat.two_pow_pos k)
  have mid : 4 * (n * 2 ^ k) = n * 2 ^ (k + 2) := by ring
  have value : 4 * (n * 2 ^ k) * 1 = n * 2 ^ (k + 2) := by rw [mid, Nat.mul_one]
  rcases exists_shortest_near tie hn (Nat.two_pow_pos _) unit value with
    ⟨digits, place, he, low, high, -⟩ | ⟨long, -⟩
  · refine ⟨digits, place, he, ?_⟩
    rw [mid, Nat.mul_one] at low high
    generalize digits * 10 ^ place = p at low high ⊢
    generalize 2 ^ (k + 2) = d at den low high
    apply Nat.le_antisymm
    · by_contra more
      have : (n + 1) * d ≤ p * d := Nat.mul_le_mul_right d (by omega)
      rw [Nat.add_mul] at this
      omega
    · by_contra less
      have : (p + 1) * d ≤ n * d := Nat.mul_le_mul_right d (by omega)
      rw [Nat.add_mul] at this
      omega
  · omega

/-- Above 2^53 the digits are those of a number above 2^53 + 1. -/
theorem exists_shortest_of_even (tie : Tie) {m : Nat} (k : Nat) (hm : Binary64.leastNormal ≤ m)
    (large : Binary64.exactBound < m * 2 ^ (k + 1)) :
    ∃ digits place : Nat, shortest tie m ((k + 1 : Nat) : Int) = (digits, (place : Int)) ∧
      Binary64.exactBound + 1 < digits * 10 ^ place := by
  have far : Binary64.exactBound + 1 < m * 10 ^ (k + 1) := by
    have : m * 10 ≤ m * 10 ^ (k + 1) := Nat.mul_le_mul_left m (Nat.le_self_pow (by omega) 10)
    simp only [Binary64.leastNormal, Binary64.exactBound] at hm ⊢
    omega
  simp only [Binary64.leastNormal, Binary64.exactBound] at hm large far ⊢
  have positive : 0 < m * 2 ^ (k + 1) := Nat.mul_pos (by omega) (Nat.two_pow_pos _)
  cases k with
  | zero =>
      have unit : Binary64.scale 1 (((0 + 1 : Nat) : Int) - 2) = (1, 2) := by decide
      have value : 4 * m * 1 = m * 2 ^ (0 + 1) * 2 := by omega
      rcases exists_shortest_near tie positive (by decide) unit value with
        ⟨digits, place, he, low, -, strict⟩ | ⟨-, he⟩
      · exact ⟨digits, place, he, by omega⟩
      · exact ⟨m, 1, he, far⟩
  | succ k =>
      have unit : Binary64.scale 1 (((k + 1 + 1 : Nat) : Int) - 2) = (2 ^ k, 1) := by
        rw [← Nat.one_mul (2 ^ k), ← Binary64.scale_natCast]
        congr 1
        omega
      have value : 4 * m * 2 ^ k = m * 2 ^ (k + 1 + 1) * 1 := by ring
      rcases exists_shortest_near tie positive (by decide) unit value with
        ⟨digits, place, he, low, -, -⟩ | ⟨-, he⟩
      · have : (4 * m - 2) * 1 ≤ (4 * m - 2) * 2 ^ k := Nat.mul_le_mul_left _ (Nat.two_pow_pos k)
        exact ⟨digits, place, he, by omega⟩
      · exact ⟨m, k + 1 + 1, he, far⟩

/-- Up to 2^53 the shortest digits of a whole number are its own. -/
theorem exists_shortest_of_whole {m n : Nat} {e : Int} (canonical : Binary64.Canonical m e)
    (hm : m ≠ 0) (whole : (Binary64.scale m e).1 = n * (Binary64.scale m e).2) :
    ∃ digits place : Nat, shortest .up m e = (digits, (place : Int)) ∧
      (n ≤ Binary64.exactBound → digits * 10 ^ place = n) ∧
      (Binary64.exactBound < n → Binary64.exactBound + 1 < digits * 10 ^ place) := by
  obtain ⟨k, rfl | rfl⟩ : ∃ k : Nat, e = -(k : Int) ∨ e = ((k + 1 : Nat) : Int) :=
    ⟨if e ≤ 0 then (-e).toNat else (e - 1).toNat, by split <;> omega⟩
  · rw [Binary64.scale_neg_natCast] at whole
    obtain rfl : m = n * 2 ^ k := whole
    have positive : 0 < n := Nat.pos_of_ne_zero (by rintro rfl; simp at hm)
    have le : n ≤ n * 2 ^ k := Nat.le_mul_of_pos_right n (Nat.two_pow_pos k)
    have lt := canonical.lt
    simp only [Binary64.leastNormal, Binary64.exactBound] at lt ⊢
    obtain ⟨digits, place, he, hv⟩ := exists_shortest_of_fraction .up k positive (by omega)
    exact ⟨digits, place, he, fun _ => hv, by omega⟩
  · rw [Binary64.scale_natCast, Nat.mul_one] at whole
    obtain rfl : m * 2 ^ (k + 1) = n := whole
    have normal : Binary64.leastNormal ≤ m := by
      refine canonical.normal.resolve_right ?_
      simp only [Binary64.minExponent]
      omega
    by_cases large : Binary64.exactBound < m * 2 ^ (k + 1)
    · obtain ⟨digits, place, he, hv⟩ := exists_shortest_of_even .up k normal large
      exact ⟨digits, place, he, by omega, fun _ => hv⟩
    · -- Only 2^53 itself is left.
      have double : m * 2 ≤ m * 2 ^ (k + 1) := Nat.mul_le_mul_left m (Nat.le_self_pow (by omega) 2)
      obtain rfl : m = Binary64.leastNormal := by
        simp only [Binary64.leastNormal, Binary64.exactBound] at *
        omega
      obtain rfl : k = 0 := by
        by_contra more
        have : 2 ^ 2 ≤ 2 ^ (k + 1) := Nat.pow_le_pow_right (by decide) (by omega)
        simp only [Binary64.leastNormal, Binary64.exactBound] at *
        omega
      refine ⟨9007199254740992, 0, by decide +kernel, fun _ => rfl, fun h => absurd h large⟩

/-! ### The text -/

theorem digitsValue_append_zeros (cs : List Char) (k : Nat) :
    digitsValue (cs ++ List.replicate k '0') = digitsValue cs * 10 ^ k := by
  induction k with
  | zero => simp
  | succ k ih =>
      rw [List.replicate_succ', ← List.append_assoc, digitsValue, List.foldl_append]
      change 10 * digitsValue (cs ++ List.replicate k '0') + 0 = _
      rw [ih]
      ring

/-- What is written at a whole place is digits. -/
theorem digitsValue_positional (digits place : Nat) :
    digitsValue (positional digits place).toList = digits * 10 ^ place := by
  rw [positional, if_pos (Int.natCast_nonneg _), String.toList_append, zeros, String.toList_ofList,
    Int.toNat_natCast, digitsValue_append_zeros, digitsValue_toString]

theorem all_isAsciiDigit_positional (digits place : Nat) :
    ∀ c ∈ (positional digits place).toList, isAsciiDigit c = true := by
  intro c hc
  rw [positional, if_pos (Int.natCast_nonneg _), String.toList_append] at hc
  rcases List.mem_append.mp hc with hc | hc
  · exact isAsciiDigit_of_mem_toString digits hc
  · exact isAsciiDigit_of_mem_zeros hc

/-- The digits with which the script writes a whole number, without its sign. -/
structure IsWholeText (n : Nat) (cs : List Char) : Prop where
  ne_nil : cs ≠ []
  digits : ∀ c ∈ cs, isAsciiDigit c = true
  exact : n ≤ Binary64.exactBound → digitsValue cs = n
  large : Binary64.exactBound < n → Binary64.exactBound + 1 < digitsValue cs

theorem natAbs_withSign (negative : Bool) (n : Nat) :
    (Binary64.withSign negative n).natAbs = n := by
  cases negative <;> simp [Binary64.withSign]

/-- A whole number is written with digits. -/
theorem isWholeText_of_whole {x : Binary64} {n : Int} (canonical : x.IsCanonical)
    (whole : x.whole? = some n) : IsWholeText n.natAbs x.magnitude.scriptText.toList := by
  cases x with
  | nan => cases whole
  | infinite negative => cases whole
  | finite negative m e =>
      obtain ⟨divides, hn⟩ := Option.ite_none_right_eq_some.mp whole
      obtain rfl := Option.some.inj hn
      have quotient := (Nat.div_mul_cancel (Nat.dvd_of_mod_eq_zero divides)).symm
      rw [natAbs_withSign]
      by_cases hm : m = 0
      · have text : (Binary64.finite negative m e).magnitude.scriptText = "0" := by
          rw [Binary64.magnitude, Binary64.scriptText, if_pos (by simp [Binary64.isZero, hm])]
        rw [text, hm, Binary64.scale_zero_fst, Nat.zero_div]
        exact ⟨by decide, List.all_eq_true.mp (by decide), fun _ => rfl,
          fun h => absurd h (by decide)⟩
      · obtain ⟨digits, place, he, exact, large⟩ := exists_shortest_of_whole canonical hm quotient
        have text : (Binary64.finite negative m e).magnitude.scriptText =
            positional digits place := by
          rw [Binary64.magnitude, Binary64.scriptText, if_neg (by simp [Binary64.isZero, hm])]
          simp [Binary64.display, hm, he, signText]
        rw [text]
        refine ⟨?_, all_isAsciiDigit_positional digits place, ?_, ?_⟩
        · obtain ⟨c, rest, hc, -⟩ := (isNumeral_positional digits place).exists_cons
          simp [hc]
        · rwa [digitsValue_positional]
        · rwa [digitsValue_positional]

theorem Binary64.isFinite_of_whole {x : Binary64} {n : Int} (h : x.whole? = some n) :
    x.isFinite = true := by
  cases x with
  | finite negative m e => rfl
  | nan => cases h
  | infinite negative => cases h

namespace Binary64

theorem truncate_ofRatio_of_le (negative : Bool) {n : Nat} (h : n ≤ exactBound) :
    truncate? (ofRatio negative n 1) = some (withSign negative n) := by
  rcases Nat.eq_zero_or_pos n with rfl | pos
  · cases negative <;> decide +kernel
  · rcases Nat.lt_or_eq_of_le h with lt | rfl
    · rw [ofRatio_one_of_lt negative (Nat.ne_of_gt pos) lt, truncate?, scale_neg_natCast]
      simp [Nat.mul_div_cancel _ (Nat.two_pow_pos _)]
    · cases negative <;> decide +kernel

theorem truncate_finite_natCast (negative : Bool) (m e : Nat) :
    truncate? (.finite negative m e) = some (withSign negative (m * 2 ^ e)) := by
  simp only [truncate?, scale_natCast, Nat.div_one]

/-- What is larger than the bound stays larger. -/
theorem lt_of_truncate_ofRatio (negative : Bool) {n : Nat} (h : exactBound + 1 < n) {base : Int}
    (truncated : truncate? (ofRatio negative n 1) = some base) : exactBound < base.natAbs := by
  have hn : n ≠ 0 := Nat.ne_of_gt (Nat.zero_lt_of_lt h)
  obtain ⟨k, hk⟩ : ∃ k, n.log2 = 53 + k := by
    apply Nat.exists_eq_add_of_le
    rw [Nat.le_log2 hn]
    exact Nat.le_of_lt (Nat.lt_of_succ_lt h)
  have exponent : max ((n.log2 : Int) - 52) minExponent = ((k + 1 : Nat) : Int) := by
    simp only [minExponent]
    omega
  simp only [ofRatio, hn, if_false, floorLog2_one hn, exponent, scale_natCast, Nat.one_mul,
    Nat.mul_one] at truncated
  -- The significand is no less than the whole part of the quotient.
  have floor : n / 2 ^ (k + 1) ≤ roundDiv .toEven n (2 ^ (k + 1)) := by
    rcases roundDiv_cases .toEven n (2 ^ (k + 1)) with ⟨hr, -⟩ | ⟨hr, -⟩ <;> omega
  have bits : leastNormal ≤ n / 2 ^ (k + 1) := by
    rw [Nat.le_div_iff_mul_le (Nat.two_pow_pos _)]
    calc leastNormal * 2 ^ (k + 1)
      _ = 2 ^ n.log2 := by rw [hk]; simp only [leastNormal]; ring
      _ ≤ n := Nat.log2_self_le hn
  have odd : k = 0 → leastNormal < n / 2 ^ (k + 1) := by
    rintro rfl
    simp only [exactBound, leastNormal] at h ⊢
    omega
  generalize roundDiv .toEven n (2 ^ (k + 1)) = m at floor truncated
  generalize n / 2 ^ (k + 1) = q at floor bits odd
  have significand : m ≠ 0 := by
    simp only [leastNormal] at bits
    omega
  have next : ((k + 1 : Nat) : Int) + 1 = ((k + 2 : Nat) : Int) := by omega
  have double : 2 ≤ 2 ^ (k + 1) := Nat.le_self_pow (by omega) 2
  by_cases carry : m = 2 * leastNormal
  · simp only [carry, if_true, next] at truncated
    split_ifs at truncated with zero huge
    · exact absurd zero (by decide)
    · cases truncated
    · rw [truncate_finite_natCast] at truncated
      obtain rfl := Option.some.inj truncated
      rw [natAbs_withSign, Nat.pow_succ]
      simp only [leastNormal, exactBound]
      omega
  · simp only [carry, if_false, significand] at truncated
    split_ifs at truncated with huge
    · cases truncated
    · rw [truncate_finite_natCast] at truncated
      obtain rfl := Option.some.inj truncated
      rw [natAbs_withSign]
      by_cases hk0 : k = 0
      · subst hk0
        have := odd rfl
        simp only [leastNormal, exactBound] at *
        omega
      · have four : 2 ^ 2 ≤ 2 ^ (k + 1) := Nat.pow_le_pow_right (by decide) (by omega)
        calc exactBound
          _ < leastNormal * 2 ^ 2 := by decide
          _ ≤ m * 2 ^ (k + 1) := Nat.mul_le_mul (bits.trans floor) four

end Binary64

section Reading
variable {cs text : List Char} {negative : Bool}

/-- Digits up to 2^53 are read as they stand. -/
theorem truncate_of_digits_le (sign : splitSign text = (negative, cs)) (hne : cs ≠ [])
    (h : ∀ c ∈ cs, isAsciiDigit c = true) (le : digitsValue cs ≤ Binary64.exactBound) :
    (readBinary64 text).bind Binary64.truncate? =
      some (Binary64.withSign negative (digitsValue cs)) := by
  rw [readBinary64_of_digits negative sign hne h, Option.bind_some, ofDecimal_zero negative le,
    Binary64.truncate_ofRatio_of_le negative le]

/-- Digits above 2^53 + 1 are read as a number above 2^53, or as none. -/
theorem lt_of_truncate_of_digits (sign : splitSign text = (negative, cs)) (hne : cs ≠ [])
    (h : ∀ c ∈ cs, isAsciiDigit c = true) (lt : Binary64.exactBound + 1 < digitsValue cs)
    {base : Int} (truncated : (readBinary64 text).bind Binary64.truncate? = some base) :
    Binary64.exactBound < base.natAbs := by
  rw [readBinary64_of_digits negative sign hne h, Option.bind_some] at truncated
  generalize digitsValue cs = n at lt truncated
  have hn : n ≠ 0 := Nat.ne_of_gt (Nat.zero_lt_of_lt lt)
  simp only [Binary64.ofDecimal, hn, if_false, Int.le_refl, if_true] at truncated
  split_ifs at truncated with huge tiny
  · cases truncated
  · omega
  · refine Binary64.lt_of_truncate_ofRatio negative lt ?_
    simpa using truncated

end Reading

end BlockScript.Number
