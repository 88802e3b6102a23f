import Mathlib.Tactic.Linarith
import BlockScript.Number.Shortest
import BlockScript.Proofs.Number.Canonical

/-! # The numbers that round to one of the format

Around every number of the format lies an interval of quotients that are rounded to it. The shortest
decimal is searched in that interval, and the search ends with one after seventeen digits at the
latest. -/

namespace BlockScript.Number

theorem lt_pow_length_toDigits (n : Nat) : n < 10 ^ (Nat.toDigits 10 n).length :=
  (Nat.length_toDigits_le_iff (by decide) Nat.length_toDigits_pos).mp (Nat.le_refl _)

theorem pow_length_toDigits_le {n : Nat} (h : n ≠ 0) :
    10 ^ ((Nat.toDigits 10 n).length - 1) ≤ n := by
  rcases Nat.eq_zero_or_pos ((Nat.toDigits 10 n).length - 1) with one | more
  · rw [one]
    exact Nat.pos_of_ne_zero h
  · rw [← Nat.not_lt, ← Nat.length_toDigits_le_iff (by decide) more]
    omega

/-- A quotient goes to the whole number that it is within half a unit of; half way between two, to
the even one. -/
theorem roundDiv_toEven_eq {num den m : Nat} (hd : 0 < den)
    (above : 2 * (m * den) ≤ 2 * num + den) (below : 2 * num ≤ 2 * (m * den) + den)
    (odd : m % 2 = 1 → 2 * (m * den) < 2 * num + den ∧ 2 * num < 2 * (m * den) + den) :
    roundDiv .toEven num den = m := by
  have division := Nat.div_add_mod' num den
  have rest := Nat.mod_lt num hd
  unfold roundDiv
  dsimp only
  generalize num / den = q at division ⊢
  generalize num % den = r at division rest ⊢
  have lower : m ≤ q + 1 := by
    by_contra far
    have : (q + 2) * den ≤ m * den := Nat.mul_le_mul_right den (by omega)
    rw [Nat.add_mul] at this
    omega
  have upper : q ≤ m := by
    by_contra far
    have : (m + 1) * den ≤ q * den := Nat.mul_le_mul_right den (by omega)
    rw [Nat.add_mul] at this
    omega
  rcases Nat.lt_or_eq_of_le lower with down | rfl
  · obtain rfl : m = q := by omega
    split_ifs <;> omega
  · rw [Nat.add_mul] at above below odd
    split_ifs <;> omega

namespace Interval

variable {i : Interval} {tie : Tie}

/-- `10^place` as a quotient. -/
def step (place : Int) : Nat × Nat :=
  if 0 ≤ place then (Nat.pow 10 place.toNat, 1) else (1, Nat.pow 10 (-place).toNat)

theorem step_natCast (place : Nat) : step place = (10 ^ place, 1) := by
  simp [step]

theorem step_snd_pos (place : Int) : 0 < (step place).2 := by
  unfold step
  split
  · exact Nat.one_pos
  · exact Nat.pow_pos (by decide)

theorem step_fst (place : Int) : ((step place).1 : ℚ) = 10 ^ place * (step place).2 := by
  unfold step
  split
  · next whole =>
      obtain ⟨k, rfl⟩ := Int.eq_ofNat_of_zero_le whole
      simp
  · next part =>
      obtain ⟨k, rfl⟩ : ∃ k : Nat, place = -(k : Int) := ⟨(-place).toNat, by omega⟩
      simp

/-- A point of a grid and a bound of the interval, over one denominator. -/
theorem step_point (i : Interval) (n : Nat) (place : Int) :
    ((n * ((step place).1 * i.den) : Nat) : ℚ) = n * 10 ^ place * i.den * (step place).2 := by
  push_cast
  rw [step_fst]
  ring

/-- Is a number in the interval? -/
def Contains (i : Interval) (v : ℚ) : Prop :=
  i.low ≤ v * i.den ∧ v * i.den ≤ i.high ∧
    (i.closed = false → i.low < v * i.den ∧ v * i.den < i.high)

theorem holds_iff {closed : Bool} {low high point : Nat} :
    holds closed low high point = true ↔
      low ≤ point ∧ point ≤ high ∧ (closed = false → low < point ∧ point < high) := by
  cases closed
  · simp [holds]
    omega
  · simp [holds]

/-- The test of a decimal. -/
theorem holds_step_iff (n : Nat) (place : Int) :
    holds i.closed (i.low * (step place).2) (i.high * (step place).2)
      (n * ((step place).1 * i.den)) = true ↔ i.Contains (n * 10 ^ place) := by
  have positive : (0 : ℚ) < (step place).2 := by exact_mod_cast step_snd_pos place
  simp only [holds_iff, Contains, ← Nat.cast_le (α := ℚ), ← Nat.cast_lt (α := ℚ), step_point,
    Nat.cast_mul i.low, Nat.cast_mul i.high, mul_le_mul_iff_left₀ positive,
    mul_lt_mul_iff_left₀ positive]

/-- The multiple of `10^place` next below the number. -/
def below (i : Interval) (place : Int) : Nat := i.mid * (step place).2 / ((step place).1 * i.den)

/-- A search on a grid finds a positive neighbour in the interval, or there is none. -/
theorem onGrid_cases (tie : Tie) (i : Interval) (place : Int) :
    (∃ digits, i.onGrid tie place = some digits ∧ digits ≠ 0 ∧ i.Contains (digits * 10 ^ place)) ∨
      i.onGrid tie place = none ∧
        (i.below place ≠ 0 → ¬ i.Contains (i.below place * 10 ^ place)) ∧
        ¬ i.Contains ((i.below place + 1 : Nat) * 10 ^ place) := by
  simp only [← holds_step_iff, below]
  obtain ⟨⟨up, down⟩, unit⟩ : ∃ unit, step place = unit := ⟨_, rfl⟩
  have unit' := unit
  unfold step at unit'
  simp only [onGrid, unit, unit']
  split
  · next hasBelow hasAbove =>
      simp only [Bool.and_eq_false_iff, decide_eq_false_iff_not, Nat.not_lt] at hasBelow
      refine .inr ⟨rfl, fun positive => ?_, by simp [hasAbove]⟩
      rcases hasBelow with none | outside
      · exact absurd (Nat.le_zero.mp none) positive
      · simp [outside]
  · next hasBelow _ =>
      simp only [Bool.and_eq_true, decide_eq_true_eq] at hasBelow
      exact .inl ⟨_, rfl, Nat.ne_of_gt hasBelow.1, hasBelow.2⟩
  · next _ hasAbove => exact .inl ⟨_, rfl, Nat.succ_ne_zero _, hasAbove⟩
  · next hasBelow hasAbove =>
      simp only [Bool.and_eq_true, decide_eq_true_eq] at hasBelow
      refine .inl ⟨_, rfl, ?_⟩
      rcases roundDiv_cases tie (i.mid * down) (up * i.den) with ⟨hr, -⟩ | ⟨hr, -⟩
      · rw [hr]
        exact ⟨Nat.ne_of_gt hasBelow.1, hasBelow.2⟩
      · rw [hr]
        exact ⟨Nat.succ_ne_zero _, hasAbove⟩

/-- What is found on a grid lies in the interval. -/
theorem contains_of_onGrid {place : Int} {digits : Nat} (h : i.onGrid tie place = some digits) :
    digits ≠ 0 ∧ i.Contains (digits * 10 ^ place) := by
  rcases onGrid_cases tie i place with ⟨found, hf, inside⟩ | ⟨none, -⟩
  · obtain rfl := Option.some.inj (hf.symm.trans h)
    exact inside
  · rw [none] at h
    cases h

/-- The number lies between its neighbours on a grid. -/
theorem below_spec (place : Int) (hd : 0 < i.den) :
    i.below place * (10 : ℚ) ^ place * i.den ≤ i.mid ∧
      i.mid < ((i.below place + 1 : Nat) : ℚ) * 10 ^ place * i.den := by
  have positive : (0 : ℚ) < (step place).2 := by exact_mod_cast step_snd_pos place
  have unit : 0 < (step place).1 * i.den := by
    refine Nat.mul_pos ?_ hd
    have : (0 : ℚ) < (step place).1 := by
      rw [step_fst]
      positivity
    exact_mod_cast this
  have under : i.below place * ((step place).1 * i.den) ≤ i.mid * (step place).2 :=
    Nat.div_mul_le_self _ _
  have past : i.mid * (step place).2 < (i.below place + 1) * ((step place).1 * i.den) :=
    Nat.lt_mul_of_div_lt (Nat.lt_succ_self _) unit
  rw [← Nat.cast_le (α := ℚ), step_point, Nat.cast_mul, mul_le_mul_iff_left₀ positive] at under
  rw [← Nat.cast_lt (α := ℚ), step_point, Nat.cast_mul, mul_lt_mul_iff_left₀ positive] at past
  exact ⟨under, past⟩

/-- A grid that is finer than the interval is wide has a point in it. -/
theorem isSome_onGrid {place : Int} (hd : 0 < i.den) (low : i.low < i.mid) (high : i.mid < i.high)
    (fits : (10 : ℚ) ^ place * i.den ≤ i.mid)
    (wide : i.low + (10 : ℚ) ^ place * i.den < i.high) : (i.onGrid tie place).isSome = true := by
  obtain ⟨under, past⟩ := below_spec place hd
  have low' : (i.low : ℚ) < i.mid := by exact_mod_cast low
  have high' : (i.mid : ℚ) < i.high := by exact_mod_cast high
  rcases onGrid_cases tie i place with ⟨found, hf, -⟩ | ⟨-, outside, outside'⟩
  · rw [hf]
    rfl
  · -- Both neighbours would lie outside, and the interval between them.
    exfalso
    have above : (i.high : ℚ) ≤ (i.below place + 1 : Nat) * 10 ^ place * i.den := by
      by_contra less
      rw [not_le] at less
      exact outside' ⟨(low'.trans past).le, less.le, fun _ => ⟨low'.trans past, less⟩⟩
    have size : ((i.below place + 1 : Nat) : ℚ) * 10 ^ place * i.den =
        i.below place * 10 ^ place * i.den + 10 ^ place * i.den := by
      push_cast
      ring
    have positive : i.below place ≠ 0 := by
      intro zero
      rw [zero] at size past
      simp only [Nat.cast_zero, zero_mul, zero_add] at size
      linarith
    have beneath : i.below place * (10 : ℚ) ^ place * i.den ≤ i.low := by
      by_contra more
      rw [not_le] at more
      exact outside positive
        ⟨more.le, (under.trans_lt high').le, fun _ => ⟨more, under.trans_lt high'⟩⟩
    linarith

/-- The number has a digit at its leading place. -/
theorem leadingPlace_spec (hd : 0 < i.den) (hm : 0 < i.mid) :
    (10 : ℚ) ^ i.leadingPlace * i.den ≤ i.mid := by
  unfold leadingPlace
  split
  · next whole =>
      have quotient : i.mid / i.den ≠ 0 := Nat.ne_of_gt (Nat.div_pos whole hd)
      have digits : 1 ≤ (Nat.toDigits 10 (i.mid / i.den)).length := Nat.length_toDigits_pos
      have place : ((Nat.toDigits 10 (i.mid / i.den)).length : Int) - 1 =
          ((Nat.toDigits 10 (i.mid / i.den)).length - 1 : Nat) := by omega
      rw [place, zpow_natCast]
      exact_mod_cast (Nat.le_div_iff_mul_le hd).mp (pow_length_toDigits_le quotient)
  · have digits := lt_pow_length_toDigits ((i.den + i.mid - 1) / i.mid - 1)
    generalize (Nat.toDigits 10 ((i.den + i.mid - 1) / i.mid - 1)).length = n at digits
    -- The quotient is rounded up, so the power is no less than the inverse of the number.
    have past : i.den + i.mid - 1 < ((i.den + i.mid - 1) / i.mid + 1) * i.mid :=
      Nat.lt_mul_of_div_lt (Nat.lt_succ_self _) hm
    have grows : (i.den + i.mid - 1) / i.mid * i.mid ≤ 10 ^ n * i.mid :=
      Nat.mul_le_mul_right _ (by omega)
    rw [Nat.add_mul] at past
    have inverse : i.den ≤ i.mid * 10 ^ n := by
      rw [Nat.mul_comm i.mid]
      omega
    have inverse' : (i.den : ℚ) ≤ i.mid * 10 ^ n := by exact_mod_cast inverse
    rw [zpow_neg, zpow_natCast, inv_mul_le_iff₀ (by positivity), mul_comm]
    exact inverse'

/-- The quarters of a unit between a number and the lower end of its interval. -/
def gap (m : Nat) (e : Int) : Nat :=
  if m = Binary64.leastNormal ∧ e ≠ Binary64.minExponent then 1 else 2

theorem one_le_gap (m : Nat) (e : Int) : 1 ≤ gap m e := by
  unfold gap
  split <;> omega

theorem gap_le_two (m : Nat) (e : Int) : gap m e ≤ 2 := by
  unfold gap
  split <;> omega

theorem gap_leastNormal {e : Int} (h : e ≠ Binary64.minExponent) :
    gap Binary64.leastNormal e = 1 := if_pos ⟨rfl, h⟩

theorem gap_of_ne {m : Nat} (e : Int) (h : m ≠ Binary64.leastNormal) : gap m e = 2 :=
  if_neg fun least => h least.1

section OfFinite
variable (m : Nat) (e : Int)

theorem ofFinite_den_pos : 0 < (ofFinite m e).den := Binary64.scale_snd_pos 1 (e - 2)

/-- The ends of the interval and the number itself, in quarters of a unit. -/
theorem ofFinite_ends :
    ((ofFinite m e).low : ℚ) = (4 * m - gap m e : Nat) * 2 ^ (e - 2) * (ofFinite m e).den ∧
      ((ofFinite m e).mid : ℚ) = (4 * m : Nat) * 2 ^ (e - 2) * (ofFinite m e).den ∧
      ((ofFinite m e).high : ℚ) = (4 * m + 2 : Nat) * 2 ^ (e - 2) * (ofFinite m e).den := by
  have unit : ((Binary64.scale 1 (e - 2)).1 : ℚ) = 2 ^ (e - 2) * (ofFinite m e).den := by
    rw [Binary64.scale_fst, Nat.cast_one, one_mul]
    rfl
  have ends (n : Nat) : ((n * (Binary64.scale 1 (e - 2)).1 : Nat) : ℚ) =
      n * 2 ^ (e - 2) * (ofFinite m e).den := by
    rw [Nat.cast_mul, unit, mul_assoc]
  exact ⟨ends _, ends _, ends _⟩

/-- The interval of a number, in quarters of a unit. An even significand takes the ends in. -/
theorem contains_ofFinite_iff (v : ℚ) :
    (ofFinite m e).Contains v ↔
      (4 * m - gap m e : Nat) * 2 ^ (e - 2) ≤ v ∧ v ≤ (4 * m + 2 : Nat) * 2 ^ (e - 2) ∧
        (m % 2 = 1 → (4 * m - gap m e : Nat) * 2 ^ (e - 2) < v ∧
          v < (4 * m + 2 : Nat) * 2 ^ (e - 2)) := by
  have positive : (0 : ℚ) < (ofFinite m e).den := by exact_mod_cast ofFinite_den_pos m e
  obtain ⟨low, -, high⟩ := ofFinite_ends m e
  have odd : (ofFinite m e).closed = false ↔ m % 2 = 1 := by simp [ofFinite]
  rw [Contains, low, high, odd, mul_le_mul_iff_left₀ positive, mul_le_mul_iff_left₀ positive,
    mul_lt_mul_iff_left₀ positive, mul_lt_mul_iff_left₀ positive]

end OfFinite

section Search
variable {m : Nat} {e : Int}

/-- A grid of seventeen digits is finer than the interval is wide. -/
theorem grid_lt_of_canonical (canonical : Binary64.Canonical m e) :
    4 * m < (gap m e + 2) * 10 ^ 16 := by
  have lt := canonical.lt
  simp only [Binary64.leastNormal] at lt
  by_cases least : m = Binary64.leastNormal
  · have := one_le_gap m e
    rw [least] at this ⊢
    simp only [Binary64.leastNormal] at this ⊢
    omega
  · rw [gap_of_ne e least]
    omega

/-- Seventeen digits suffice. -/
theorem isSome_onGrid_leadingPlace (tie : Tie) (canonical : Binary64.Canonical m e) (hm : m ≠ 0) :
    ((ofFinite m e).onGrid tie ((ofFinite m e).leadingPlace - 16)).isSome = true := by
  have hd := ofFinite_den_pos m e
  have positive : (0 : ℚ) < (ofFinite m e).den := by exact_mod_cast hd
  obtain ⟨low, mid, high⟩ := ofFinite_ends m e
  have one := one_le_gap m e
  have ordered {a b : Nat} (h : a < b) :
      (a : ℚ) * 2 ^ (e - 2) * (ofFinite m e).den < b * 2 ^ (e - 2) * (ofFinite m e).den := by
    gcongr
  have low_lt : (ofFinite m e).low < (ofFinite m e).mid := by
    rw [← Nat.cast_lt (α := ℚ), low, mid]
    exact ordered (by omega)
  have lt_high : (ofFinite m e).mid < (ofFinite m e).high := by
    rw [← Nat.cast_lt (α := ℚ), mid, high]
    exact ordered (by omega)
  have leading := leadingPlace_spec hd (Nat.zero_lt_of_lt low_lt)
  have finer : (10 : ℚ) ^ ((ofFinite m e).leadingPlace - 16) * (ofFinite m e).den * 10 ^ 16 =
      10 ^ (ofFinite m e).leadingPlace * (ofFinite m e).den := by
    rw [zpow_sub₀ (by norm_num)]
    norm_num
    ring
  refine isSome_onGrid hd low_lt lt_high ?_ ?_
  · have := mul_pos (zpow_pos (by norm_num : (0 : ℚ) < 10) ((ofFinite m e).leadingPlace - 16))
      positive
    linarith
  · generalize (10 : ℚ) ^ ((ofFinite m e).leadingPlace - 16) * (ofFinite m e).den = unit at finer ⊢
    have parts : (4 * m - gap m e : Nat) + (gap m e + 2) = 4 * m + 2 := by
      have := gap_le_two m e
      omega
    have width : ((ofFinite m e).high : ℚ) = (ofFinite m e).low +
        (gap m e + 2 : Nat) * 2 ^ (e - 2) * (ofFinite m e).den := by
      rw [high, low, ← parts, Nat.cast_add, add_mul, add_mul]
    rw [width]
    have scaled : (0 : ℚ) ≤ 10 ^ 16 := by positivity
    refine add_lt_add_of_le_of_lt le_rfl (lt_of_mul_lt_mul_right ?_ scaled)
    calc unit * 10 ^ 16
      _ ≤ (4 * m : Nat) * 2 ^ (e - 2) * (ofFinite m e).den := by
        rw [finer, ← mid]
        exact leading
      _ < ((gap m e + 2) * 10 ^ 16 : Nat) * 2 ^ (e - 2) * (ofFinite m e).den :=
        ordered (grid_lt_of_canonical canonical)
      _ = (gap m e + 2 : Nat) * 2 ^ (e - 2) * (ofFinite m e).den * 10 ^ 16 := by
        push_cast
        ring

end Search

end Interval

/-- Dropping zeros keeps the number. -/
theorem exists_dropZeros (fuel digits : Nat) (place : Int) :
    ∃ k digits' : Nat, dropZeros fuel digits place = (digits', place + k) ∧
      digits' * 10 ^ k = digits := by
  induction fuel generalizing digits place with
  | zero => exact ⟨0, digits, by simp [dropZeros], by simp⟩
  | succ fuel ih =>
      rw [dropZeros]
      split
      · next h =>
          obtain ⟨k, digits', he, hv⟩ := ih (digits / 10) (place + 1)
          refine ⟨k + 1, digits', ?_, ?_⟩
          · rw [he]
            congr 1
            omega
          · rw [Nat.pow_succ, ← Nat.mul_assoc, hv, Nat.div_mul_cancel (Nat.dvd_of_mod_eq_zero h)]
      · exact ⟨0, digits, by simp, by simp⟩

/-- The shortest decimal of a number lies in its interval. -/
theorem exists_shortest_contains (tie : Tie) {m : Nat} {e : Int}
    (canonical : Binary64.Canonical m e) (hm : m ≠ 0) :
    ∃ digits place, shortest tie m e = (digits, place) ∧ digits ≠ 0 ∧
      (Interval.ofFinite m e).Contains (digits * 10 ^ place) := by
  have last := Interval.isSome_onGrid_leadingPlace tie canonical hm
  simp only [shortest]
  generalize Interval.ofFinite m e = i at last ⊢
  generalize hf : (fun (n : Nat) =>
    (i.onGrid tie (i.leadingPlace - n)).map fun digits => (digits, i.leadingPlace - n)) = f
  cases hit : (List.range 17).findSome? f with
  | none =>
      have absent := List.findSome?_eq_none_iff.mp hit 16 (List.mem_range.mpr (by decide))
      obtain ⟨digits, found⟩ := Option.isSome_iff_exists.mp last
      simp [← hf, found] at absent
  | some found =>
      obtain ⟨n, -, hn⟩ := List.exists_of_findSome?_eq_some hit
      rw [← hf] at hn
      obtain ⟨digits, hgrid, rfl⟩ := Option.map_eq_some_iff.mp hn
      obtain ⟨positive, inside⟩ := Interval.contains_of_onGrid hgrid
      obtain ⟨k, digits', he, rfl⟩ := exists_dropZeros 17 digits (i.leadingPlace - n)
      refine ⟨digits', _, he, left_ne_zero_of_mul positive, ?_⟩
      have value : (digits' : ℚ) * 10 ^ (i.leadingPlace - n + k) =
          (digits' * 10 ^ k : Nat) * 10 ^ (i.leadingPlace - n) := by
        rw [zpow_add₀ (by norm_num), zpow_natCast]
        push_cast
        ring
      rw [value]
      exact inside

end BlockScript.Number
