/-! # Rounding a quotient

A quotient of natural numbers goes to the nearest whole number. What happens half way between
two of them is a choice of the caller. -/

namespace BlockScript.Number

/-- Where a quotient half way between two whole numbers goes. -/
inductive Tie where
  | toEven
  | up
deriving DecidableEq, Repr

/-- The whole number nearest to `num / den`. -/
def roundDiv (tie : Tie) (num den : Nat) : Nat :=
  let q := num / den
  let r := num % den
  if 2 * r < den then q
  else if den < 2 * r then q + 1
  else match tie with
    | .toEven => q + q % 2
    | .up => q + 1

@[simp] theorem roundDiv_one (tie : Tie) (num : Nat) : roundDiv tie num 1 = num := by
  simp [roundDiv, Nat.mod_one]

/-- The result is the whole part, or one more, whichever is nearer. -/
theorem roundDiv_cases (tie : Tie) (num den : Nat) :
    roundDiv tie num den = num / den ∧ 2 * (num % den) ≤ den ∨
      roundDiv tie num den = num / den + 1 ∧ den ≤ 2 * (num % den) := by
  unfold roundDiv
  by_cases low : 2 * (num % den) < den
  · exact .inl ⟨by simp [low], by omega⟩
  by_cases high : den < 2 * (num % den)
  · exact .inr ⟨by simp [low, high], by omega⟩
  have tied : 2 * (num % den) = den := by omega
  cases tie with
  | up => exact .inr ⟨by simp [low, high], by omega⟩
  | toEven =>
    rcases Nat.mod_two_eq_zero_or_one (num / den) with h | h
    · exact .inl ⟨by simp [low, high, h], by omega⟩
    · exact .inr ⟨by simp [low, high, h], by omega⟩

end BlockScript.Number
