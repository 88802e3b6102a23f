import Mathlib.Algebra.Order.Field.Power
import Mathlib.Data.Rat.Cast.Order
import Mathlib.Tactic.NormNum
import Mathlib.Tactic.Positivity
import Mathlib.Tactic.Ring
import BlockScript.Proofs.Number.WholeNumber

/-! # The one form of a number

Every number that is read or rounded has a significand of 53 bits, or a shorter one together with
the least exponent, and an exponent that the format has. So the exponent tells the size of the
number, and a whole number above 2^53 is an even one. -/

namespace BlockScript.Number

namespace Binary64

/-- A significand and an exponent as the format holds them. -/
structure Canonical (m : Nat) (e : Int) : Prop where
  lt : m < 2 * leastNormal
  normal : leastNormal ≤ m ∨ e = minExponent
  least : minExponent ≤ e
  greatest : e ≤ maxExponent

def IsCanonical : Binary64 → Prop
  | .finite _ m e => Canonical m e
  | _ => True

theorem scale_snd_pos (n : Nat) (e : Int) : 0 < (scale n e).2 := by
  unfold scale
  split
  · exact Nat.one_pos
  · exact Nat.two_pow_pos _

/-- The quotient is the number. -/
theorem scale_fst (n : Nat) (e : Int) :
    ((scale n e).1 : ℚ) = n * 2 ^ e * (scale n e).2 := by
  obtain ⟨k, rfl | rfl⟩ := e.eq_nat_or_neg
  · simp [scale_natCast]
  · rw [scale_neg_natCast]
    simp

/-- Both sides of a comparison with a quotient may be multiplied by its denominator. -/
theorem scale_mul_le_iff (n m num den : Nat) (e : Int) :
    n * (den * (scale m e).1) ≤ num * (scale m e).2 ↔ (n * (m * 2 ^ e) * den : ℚ) ≤ num := by
  have positive : (0 : ℚ) < (scale m e).2 := by exact_mod_cast scale_snd_pos m e
  rw [← Nat.cast_le (α := ℚ)]
  push_cast
  rw [scale_fst]
  constructor
  · intro h
    apply le_of_mul_le_mul_right _ positive
    calc (n * (m * 2 ^ e) * den * (scale m e).2 : ℚ)
      _ = n * (den * (m * 2 ^ e * (scale m e).2)) := by ring
      _ ≤ num * (scale m e).2 := h
  · intro h
    calc (n * (den * (m * 2 ^ e * (scale m e).2)) : ℚ)
      _ = n * (m * 2 ^ e) * den * (scale m e).2 := by ring
      _ ≤ num * (scale m e).2 := by gcongr

theorem two_zpow_le_of_log2 {n : Nat} (h : n ≠ 0) : (2 : ℚ) ^ (n.log2 : Int) ≤ n := by
  rw [zpow_natCast]
  exact_mod_cast Nat.log2_self_le h

theorem lt_two_zpow_of_log2 (n : Nat) : (n : ℚ) < 2 ^ ((n.log2 : Int) + 1) := by
  have h : n < 2 ^ (n.log2 + 1) := Nat.lt_log2_self
  exact_mod_cast h

/-- The quotient lies between two powers of two. -/
theorem floorLog2_spec {num den : Nat} (hn : num ≠ 0) (hd : den ≠ 0) :
    (2 : ℚ) ^ floorLog2 num den * den ≤ num ∧ (num : ℚ) < 2 ^ (floorLog2 num den + 1) * den := by
  have hn' := two_zpow_le_of_log2 hn
  have hd' := two_zpow_le_of_log2 hd
  have hn'' := lt_two_zpow_of_log2 num
  have hd'' := lt_two_zpow_of_log2 den
  -- The logarithms of both numbers leave two powers to choose from.
  have upper : (num : ℚ) < 2 ^ ((num.log2 : Int) - den.log2 + 1) * den := by
    calc (num : ℚ)
      _ < 2 ^ ((num.log2 : Int) + 1) := hn''
      _ = 2 ^ ((num.log2 : Int) - den.log2 + 1) * 2 ^ (den.log2 : Int) := by
        rw [← zpow_add₀ (by norm_num)]
        congr 1
        omega
      _ ≤ 2 ^ ((num.log2 : Int) - den.log2 + 1) * den := by gcongr
  have lower : (2 : ℚ) ^ ((num.log2 : Int) - den.log2 - 1) * den ≤ num := by
    calc (2 : ℚ) ^ ((num.log2 : Int) - den.log2 - 1) * den
      _ ≤ 2 ^ ((num.log2 : Int) - den.log2 - 1) * 2 ^ ((den.log2 : Int) + 1) := by gcongr
      _ = 2 ^ (num.log2 : Int) := by
        rw [← zpow_add₀ (by norm_num)]
        congr 1
        omega
      _ ≤ num := hn'
  have chosen := scale_mul_le_iff 1 1 num den ((num.log2 : Int) - den.log2)
  simp only [one_mul, Nat.cast_one, Nat.mul_comm den] at chosen
  simp only [floorLog2, chosen]
  split
  · next h => exact ⟨h, upper⟩
  · next h => exact ⟨lower, by simpa using h⟩

/-- A quotient between two multiples of the divisor is rounded to a number between them. -/
theorem roundDiv_mem {tie : Tie} {num den low high : Nat} (hd : 0 < den) (above : low * den ≤ num)
    (below : num < high * den) : low ≤ roundDiv tie num den ∧ roundDiv tie num den ≤ high := by
  have floor : low ≤ num / den := (Nat.le_div_iff_mul_le hd).mpr above
  have ceiling : num / den < high := (Nat.div_lt_iff_lt_mul hd).mpr below
  rcases roundDiv_cases tie num den with ⟨h, -⟩ | ⟨h, -⟩ <;> omega

theorem canonical_zero : Canonical 0 minExponent := ⟨by decide, .inr rfl, by decide, by decide⟩

/-- The significand before a carry has 53 bits at most, and no fewer unless the exponent is the
least. -/
theorem significand_bounds {num den : Nat} (hn : num ≠ 0) (hd : den ≠ 0) {e : Int}
    (he : e = max (floorLog2 num den - 52) minExponent) :
    let m := roundDiv .toEven (num * (scale 1 e).2) (den * (scale 1 e).1)
    m ≤ 2 * leastNormal ∧ (leastNormal ≤ m ∨ e = minExponent) := by
  obtain ⟨above, below⟩ := floorLog2_spec hn hd
  generalize floorLog2 num den = k at above below he
  have divisor : 0 < den * (scale 1 e).1 := by
    apply Nat.mul_pos (Nat.pos_of_ne_zero hd)
    have unit : (0 : ℚ) < (scale 1 e).1 := by
      rw [scale_fst]
      have positive : (0 : ℚ) < (scale 1 e).2 := by exact_mod_cast scale_snd_pos 1 e
      positivity
    exact_mod_cast unit
  have high : num * (scale 1 e).2 < 2 * leastNormal * (den * (scale 1 e).1) := by
    rw [← Nat.not_le, scale_mul_le_iff, not_le]
    have power : (2 : ℚ) ^ (k + 1) ≤ (2 * leastNormal : Nat) * (1 * 2 ^ e) := by
      calc (2 : ℚ) ^ (k + 1)
        _ ≤ 2 ^ ((53 : Int) + e) := zpow_le_zpow_right₀ (by norm_num) (by omega)
        _ = (2 * leastNormal : Nat) * (1 * 2 ^ e) := by
          rw [zpow_add₀ (by norm_num)]
          norm_num [leastNormal]
    calc (num : ℚ)
      _ < 2 ^ (k + 1) * den := below
      _ ≤ (2 * leastNormal : Nat) * (1 * 2 ^ e) * den := by gcongr
  refine ⟨?_, ?_⟩
  · exact (roundDiv_mem divisor (Nat.zero_mul _ ▸ Nat.zero_le _) high).2
  · by_cases least : e = minExponent
    · exact .inr least
    · have exponent : e = k - 52 := by omega
      have low : leastNormal * (den * (scale 1 e).1) ≤ num * (scale 1 e).2 := by
        rw [scale_mul_le_iff]
        calc (leastNormal : ℚ) * ((1 : Nat) * 2 ^ e) * den
          _ = 2 ^ ((52 : Int) + e) * den := by
            rw [zpow_add₀ (by norm_num)]
            norm_num [leastNormal]
          _ = 2 ^ k * den := by rw [exponent]; congr 2; omega
          _ ≤ num := above
      exact .inl (roundDiv_mem divisor low high).1

/-- A rounded number has the one form. -/
theorem isCanonical_ofRatio (negative : Bool) (num : Nat) {den : Nat} (hd : den ≠ 0) :
    (ofRatio negative num den).IsCanonical := by
  by_cases hn : num = 0
  · simpa [ofRatio, hn, IsCanonical] using canonical_zero
  · obtain ⟨high, low⟩ := significand_bounds hn hd rfl
    have least : minExponent ≤ max (floorLog2 num den - 52) minExponent := Int.le_max_right _ _
    simp only [ofRatio, hn, if_false]
    generalize max (floorLog2 num den - 52) minExponent = e at high low least
    generalize roundDiv .toEven (num * (scale 1 e).2) (den * (scale 1 e).1) = m at high low
    by_cases carry : m = 2 * leastNormal
    · simp only [carry, if_true]
      split
      · exact canonical_zero
      · split
        · trivial
        · next small =>
            exact ⟨by decide, .inl (Nat.le_refl _), by omega, Int.not_lt.mp small⟩
    · simp only [carry, if_false]
      split
      · exact canonical_zero
      · split
        · trivial
        · next small => exact ⟨by omega, low, least, Int.not_lt.mp small⟩

theorem isCanonical_ofDecimal (negative : Bool) (c : Nat) (x : Int) :
    (ofDecimal negative c x).IsCanonical := by
  have power : Nat.pow 10 (-x).toNat ≠ 0 := Nat.ne_of_gt (Nat.pow_pos (by decide))
  simp only [ofDecimal]
  split_ifs
  · exact canonical_zero
  · trivial
  · exact canonical_zero
  · exact isCanonical_ofRatio negative _ Nat.one_ne_zero
  · exact isCanonical_ofRatio negative _ power

end Binary64

theorem isCanonical_readBinary64 {cs : List Char} {x : Binary64} (h : readBinary64 cs = some x) :
    x.IsCanonical := by
  simp only [readBinary64] at h
  split_ifs at h
  · obtain rfl := Option.some.inj h
    trivial
  · obtain rfl := Option.some.inj h
    trivial
  · obtain ⟨d, -, rfl⟩ := Option.map_eq_some_iff.mp h
    exact Binary64.isCanonical_ofDecimal _ _ _

/-- A number in a field has the one form. -/
theorem isCanonical_readField {text : String} {x : Binary64} (h : readField text = some x) :
    x.IsCanonical := by
  simp only [readField] at h
  split_ifs at h
  · obtain rfl := Option.some.inj h
    exact Binary64.canonical_zero
  · obtain rfl := Option.some.inj h
    trivial
  · obtain rfl := Option.some.inj h
    trivial
  · exact isCanonical_readBinary64 (Option.filter_eq_some_iff.mp h).1

end BlockScript.Number
