import BlockScript.Proofs.Number.Interval

/-! # Rounding into the interval

Whatever lies in the interval of a number is rounded to it, a quotient as well as a decimal. The
exponent is found by the logarithm, except right below a power of two, where the significand is
carried. -/

namespace BlockScript.Number

namespace Binary64

section Rounding
variable {m num den : Nat} {e : Int} {v : ℚ}

theorem two_zpow_eq_quarters (e : Int) : (2 : ℚ) ^ e = 4 * 2 ^ (e - 2) := by
  rw [zpow_sub₀ (by norm_num)]
  norm_num
  ring

/-- The least power of two with a given exponent. -/
theorem two_zpow_add (e : Int) : (2 : ℚ) ^ (52 + e) = (4 * leastNormal : Nat) * 2 ^ (e - 2) := by
  rw [zpow_add₀ (by norm_num), two_zpow_eq_quarters e]
  norm_num [leastNormal]
  ring

/-- A quotient goes to the significand that it is within half a unit of. -/
theorem roundDiv_scale_eq (hd : den ≠ 0) (value : (num : ℚ) = v * den)
    (above : (4 * m - 2 : ℚ) * 2 ^ (e - 2) ≤ v) (below : v ≤ (4 * m + 2) * 2 ^ (e - 2))
    (odd : m % 2 = 1 → (4 * m - 2 : ℚ) * 2 ^ (e - 2) < v ∧ v < (4 * m + 2) * 2 ^ (e - 2)) :
    roundDiv .toEven (num * (scale 1 e).2) (den * (scale 1 e).1) = m := by
  have positive : (0 : ℚ) < den * (scale 1 e).2 := by
    exact_mod_cast Nat.mul_pos (Nat.pos_of_ne_zero hd) (scale_snd_pos 1 e)
  have divisor : ((den * (scale 1 e).1 : Nat) : ℚ) =
      4 * 2 ^ (e - 2) * (den * (scale 1 e).2) := by
    push_cast
    rw [scale_fst, two_zpow_eq_quarters, Nat.cast_one]
    ring
  have dividend : ((num * (scale 1 e).2 : Nat) : ℚ) = v * (den * (scale 1 e).2) := by
    push_cast
    rw [value]
    ring
  generalize (den * (scale 1 e).2 : ℚ) = d at positive divisor dividend
  generalize num * (scale 1 e).2 = n at dividend ⊢
  generalize den * (scale 1 e).1 = unit at divisor ⊢
  refine roundDiv_toEven_eq ?_ ?_ ?_ fun h => ⟨?_, ?_⟩
  · have : (0 : ℚ) < unit := by
      rw [divisor]
      positivity
    exact_mod_cast this
  all_goals
    first | rw [← Nat.cast_le (α := ℚ)] | rw [← Nat.cast_lt (α := ℚ)]
    push_cast
    rw [divisor, dividend]
  · linarith [mul_le_mul_of_nonneg_right above positive.le]
  · linarith [mul_le_mul_of_nonneg_right below positive.le]
  · linarith [mul_lt_mul_of_pos_right (odd h).1 positive]
  · linarith [mul_lt_mul_of_pos_right (odd h).2 positive]

theorem contains_pos (h : (Interval.ofFinite m e).Contains v) (hm : m ≠ 0) : 0 < v := by
  obtain ⟨above, -⟩ := (Interval.contains_ofFinite_iff m e v).mp h
  have := Interval.gap_le_two m e
  have low : (0 : ℚ) < (4 * m - Interval.gap m e : Nat) := by
    exact_mod_cast (by omega : 0 < 4 * m - Interval.gap m e)
  have : (0 : ℚ) < (4 * m - Interval.gap m e : Nat) * 2 ^ (e - 2) := by positivity
  exact this.trans_le above

/-- The interval of a number ends below the next power of two. -/
theorem lt_of_contains (canonical : Canonical m e) (h : (Interval.ofFinite m e).Contains v) :
    v < 2 ^ (52 + (e + 1)) := by
  obtain ⟨-, below, -⟩ := (Interval.contains_ofFinite_iff m e v).mp h
  have lt := canonical.lt
  have significand : ((4 * m + 2 : Nat) : ℚ) < (4 * (2 * leastNormal) : Nat) := by
    exact_mod_cast (by omega : 4 * m + 2 < 4 * (2 * leastNormal))
  calc v
    _ ≤ (4 * m + 2 : Nat) * 2 ^ (e - 2) := below
    _ < (4 * (2 * leastNormal) : Nat) * 2 ^ (e - 2) := by gcongr
    _ = 2 ^ (52 + (e + 1)) := by
      rw [← add_assoc, zpow_add_one₀ (by norm_num), two_zpow_add]
      push_cast
      ring

/-- Below the power of two where the exponent starts, there is the lower quarter only, next to the
least significand. -/
theorem of_contains_of_lt (normal : leastNormal ≤ m) (least : e ≠ minExponent)
    (h : (Interval.ofFinite m e).Contains v) (lt : v < 2 ^ (52 + e)) :
    m = leastNormal ∧ (4 * leastNormal - 1 : ℚ) * 2 ^ (e - 2) ≤ v := by
  obtain ⟨above, -⟩ := (Interval.contains_ofFinite_iff m e v).mp h
  have quarters : 4 * m - Interval.gap m e < 4 * leastNormal := by
    have positive : (0 : ℚ) < 2 ^ (e - 2) := by positivity
    have := lt_of_mul_lt_mul_right ((above.trans_lt lt).trans_eq (two_zpow_add e)) positive.le
    exact_mod_cast this
  have first : m = leastNormal := by
    by_contra other
    rw [Interval.gap_of_ne e other] at quarters
    omega
  refine ⟨first, ?_⟩
  rw [first, Interval.gap_leastNormal least] at above
  rwa [Nat.cast_sub (by decide), Nat.cast_mul, Nat.cast_one, Nat.cast_ofNat] at above

/-- The exponent is found by the logarithm, or it is one more, and the significand is carried. -/
theorem exponent_of_contains (canonical : Canonical m e) (hm : m ≠ 0) (hd : den ≠ 0)
    (value : (num : ℚ) = v * den) (h : (Interval.ofFinite m e).Contains v) :
    max (floorLog2 num den - 52) minExponent = e ∨
      m = leastNormal ∧ e ≠ minExponent ∧ (4 * leastNormal - 1 : ℚ) * 2 ^ (e - 2) ≤ v ∧
        v < 2 ^ (52 + e) ∧ max (floorLog2 num den - 52) minExponent = e - 1 := by
  have positive : (0 : ℚ) < den := by exact_mod_cast Nat.pos_of_ne_zero hd
  have hn : num ≠ 0 := by
    rw [← Nat.cast_ne_zero (R := ℚ), value]
    exact (mul_pos (contains_pos h hm) positive).ne'
  obtain ⟨above, below⟩ := floorLog2_spec hn hd
  rw [value, mul_le_mul_iff_left₀ positive] at above
  rw [value, mul_lt_mul_iff_left₀ positive] at below
  generalize floorLog2 num den = k at above below ⊢
  have high : k < 52 + (e + 1) :=
    (zpow_lt_zpow_iff_right₀ (by norm_num)).mp (above.trans_lt (lt_of_contains canonical h))
  have low := canonical.least
  by_cases same : max (k - 52) minExponent = e
  · exact .inl same
  · have least : e ≠ minExponent := by omega
    have lt : v < 2 ^ (52 + e) :=
      below.trans_le (zpow_le_zpow_right₀ (by norm_num) (by omega))
    obtain ⟨first, quarter⟩ := of_contains_of_lt (canonical.normal.resolve_right least) least h lt
    have near : 51 + e < k + 1 := by
      refine (zpow_lt_zpow_iff_right₀ (by norm_num : (1 : ℚ) < 2)).mp (lt_of_le_of_lt ?_ below)
      refine le_trans ?_ quarter
      have half : (2 : ℚ) ^ (52 + e) = 2 ^ (51 + e) * 2 := by
        rw [← zpow_add_one₀ (by norm_num)]
        congr 1
        omega
      have positive : (0 : ℚ) < 2 ^ (e - 2) := by positivity
      rw [two_zpow_add] at half
      norm_num [leastNormal] at half ⊢
      linarith
    exact .inr ⟨first, least, quarter, lt, by omega⟩

/-- What lies in the interval of a number is rounded to it. -/
theorem ofRatio_of_contains (negative : Bool) (canonical : Canonical m e) (hm : m ≠ 0)
    (hd : den ≠ 0) (value : (num : ℚ) = v * den) (h : (Interval.ofFinite m e).Contains v) :
    ofRatio negative num den = .finite negative m e := by
  have positive : (0 : ℚ) < den := by exact_mod_cast Nat.pos_of_ne_zero hd
  have hn : num ≠ 0 := by
    rw [← Nat.cast_ne_zero (R := ℚ), value]
    exact (mul_pos (contains_pos h hm) positive).ne'
  have inRange : ¬ maxExponent < e := Int.not_lt.mpr canonical.greatest
  rcases exponent_of_contains canonical hm hd value h with
    exponent | ⟨rfl, least, quarter, lt, exponent⟩
  · obtain ⟨above, below, odd⟩ := (Interval.contains_ofFinite_iff m e v).mp h
    have significand : roundDiv .toEven (num * (scale 1 e).2) (den * (scale 1 e).1) = m := by
      have whole : Interval.gap m e ≤ 4 * m := by
        have := Interval.gap_le_two m e
        omega
      have wide : (4 * m - 2 : ℚ) * 2 ^ (e - 2) ≤
          (4 * m - Interval.gap m e : Nat) * 2 ^ (e - 2) := by
        have : (Interval.gap m e : ℚ) ≤ 2 := by exact_mod_cast Interval.gap_le_two m e
        rw [Nat.cast_sub whole]
        push_cast
        gcongr
      push_cast at below odd
      exact roundDiv_scale_eq hd value (wide.trans above) below
        fun h => ⟨wide.trans_lt (odd h).1, (odd h).2⟩
    have noCarry : m ≠ 2 * leastNormal := Nat.ne_of_lt canonical.lt
    simp only [ofRatio, hn, exponent, significand, noCarry, hm, inRange, if_false]
  · have significand : roundDiv .toEven (num * (scale 1 (e - 1)).2) (den * (scale 1 (e - 1)).1) =
        2 * leastNormal := by
      have half : (2 : ℚ) ^ (e - 2) = 2 ^ (e - 1 - 2) * 2 := by
        rw [← zpow_add_one₀ (by norm_num)]
        congr 1
        omega
      have positive : (0 : ℚ) < 2 ^ (e - 1 - 2) := by positivity
      rw [two_zpow_add] at lt
      rw [half] at quarter lt
      push_cast at lt
      refine roundDiv_scale_eq hd value ?_ ?_ fun h => absurd h (by decide)
      · push_cast
        linarith
      · push_cast
        linarith
    have next : e - 1 + 1 = e := by omega
    simp only [ofRatio, hn, exponent, significand, next, hm, inRange, if_true, if_false]

/-- The numbers of the format lie among the exponents that are tried. -/
theorem two_pow_lt_ten_pow : 2 ^ 1024 < 10 ^ 309 ∧ 2 ^ 1076 < 10 ^ 330 := by
  decide +kernel

/-- The leading place of a decimal in an interval is among those that are tried. -/
theorem places_of_contains (canonical : Canonical m e) (hm : m ≠ 0) {c : Nat} {x : Int} (hc : c ≠ 0)
    (h : (Interval.ofFinite m e).Contains (c * 10 ^ x)) :
    x + (Nat.toDigits 10 c).length ≤ 310 ∧ -330 ≤ x + (Nat.toDigits 10 c).length := by
  have digits : 1 ≤ (Nat.toDigits 10 c).length := Nat.length_toDigits_pos
  have low : (10 : ℚ) ^ ((Nat.toDigits 10 c).length - 1) ≤ c := by
    exact_mod_cast pow_length_toDigits_le hc
  have high : (c : ℚ) < 10 ^ (Nat.toDigits 10 c).length := by
    exact_mod_cast lt_pow_length_toDigits c
  generalize (Nat.toDigits 10 c).length = n at digits low high ⊢
  have greatest := canonical.greatest
  have least := canonical.least
  simp only [maxExponent, minExponent] at greatest least
  have small : x + n - 1 < 309 := by
    refine (zpow_lt_zpow_iff_right₀ (by norm_num : (1 : ℚ) < 10)).mp ?_
    calc (10 : ℚ) ^ (x + n - 1)
      _ = 10 ^ (n - 1) * 10 ^ x := by
        rw [← zpow_natCast, ← zpow_add₀ (by norm_num)]
        congr 1
        omega
      _ ≤ c * 10 ^ x := by gcongr
      _ < 2 ^ (52 + (e + 1)) := lt_of_contains canonical h
      _ ≤ 2 ^ (1024 : Int) := zpow_le_zpow_right₀ (by norm_num) (by omega)
      _ < 10 ^ (309 : Int) := by exact_mod_cast two_pow_lt_ten_pow.1
  have large : -330 < x + n := by
    refine (zpow_lt_zpow_iff_right₀ (by norm_num : (1 : ℚ) < 10)).mp ?_
    have quarters : (1 : ℚ) ≤ (4 * m - Interval.gap m e : Nat) := by
      have := Interval.gap_le_two m e
      exact_mod_cast (by omega : 1 ≤ 4 * m - Interval.gap m e)
    calc (10 : ℚ) ^ (-330 : Int)
      _ < 2 ^ (-1076 : Int) := by
        rw [zpow_neg, zpow_neg, inv_lt_inv₀ (by positivity) (by positivity)]
        exact_mod_cast two_pow_lt_ten_pow.2
      _ ≤ 2 ^ (e - 2) := zpow_le_zpow_right₀ (by norm_num) (by omega)
      _ ≤ (4 * m - Interval.gap m e : Nat) * 2 ^ (e - 2) :=
        le_mul_of_one_le_left (by positivity) quarters
      _ ≤ c * 10 ^ x := ((Interval.contains_ofFinite_iff m e _).mp h).1
      _ ≤ 10 ^ n * 10 ^ x := by gcongr
      _ = 10 ^ (x + n) := by
        rw [← zpow_natCast, ← zpow_add₀ (by norm_num), add_comm]
  omega

/-- A decimal in the interval of a number is read as the number. -/
theorem ofDecimal_of_contains (negative : Bool) (canonical : Canonical m e) (hm : m ≠ 0) {c : Nat}
    {x : Int} (hc : c ≠ 0) (h : (Interval.ofFinite m e).Contains (c * 10 ^ x)) :
    ofDecimal negative c x = .finite negative m e := by
  obtain ⟨small, large⟩ := places_of_contains canonical hm hc h
  simp only [ofDecimal, hc, Int.not_lt.mpr small, Int.not_lt.mpr large, if_false]
  split
  · next whole =>
      obtain ⟨k, rfl⟩ := Int.eq_ofNat_of_zero_le whole
      refine ofRatio_of_contains negative canonical hm Nat.one_ne_zero ?_ h
      simp
  · next part =>
      obtain ⟨k, rfl⟩ : ∃ k : Nat, x = -(k : Int) := ⟨(-x).toNat, by omega⟩
      refine ofRatio_of_contains negative canonical hm (Nat.ne_of_gt (Nat.pow_pos (by decide))) ?_ h
      simp

end Rounding

end Binary64

end BlockScript.Number
