import Mathlib.Algebra.Group.Nat.Defs
import Mathlib.Data.List.TakeWhile
import BlockScript.Number.Decimal
import BlockScript.Proofs.Names.Fresh

/-! # Whole numbers in the 64-bit format

Up to 2^53 every whole number is a number of the format. It comes back unchanged, whether it went
in as a number or as text. -/

namespace BlockScript.Number

open Text Names

namespace Binary64

/-- Up to this number, 2^53, the format has all whole numbers. -/
def exactBound : Nat := 0x20000000000000

theorem scale_natCast (n e : Nat) : scale n e = (n * 2 ^ e, 1) := by
  simp [scale]

theorem scale_neg_natCast (n e : Nat) : scale n (-e) = (n, 2 ^ e) := by
  rcases Nat.eq_zero_or_pos e with rfl | pos
  · simp [scale]
  · have negative : ¬ (0 : Int) ≤ -e := by omega
    rw [scale, if_neg negative, Int.neg_neg, Int.toNat_natCast]
    rfl

theorem floorLog2_one {n : Nat} (h : n ≠ 0) : floorLog2 n 1 = n.log2 := by
  have bits : (n.log2 : Int) - (Nat.log2 1 : Int) = n.log2 := Int.sub_zero _
  have fits : 1 * 2 ^ n.log2 * 1 ≤ n * 1 := by simpa using Nat.log2_self_le h
  simp only [floorLog2, bits, scale_natCast, fits, if_true]

/-- A multiple of a number is divided without a rest. -/
theorem roundDiv_mul (tie : Tie) (n : Nat) {den : Nat} (h : 0 < den) :
    roundDiv tie (n * den) den = n := by
  simp [roundDiv, h]

/-- A whole number below the bound is held exactly: its significand is the number shifted up to
53 bits. -/
theorem ofRatio_one_of_lt (negative : Bool) {n : Nat} (h : n ≠ 0) (lt : n < exactBound) :
    ofRatio negative n 1 = .finite negative (n * 2 ^ (52 - n.log2)) (-(52 - n.log2 : Nat)) := by
  have bits : n.log2 < 53 := (Nat.log2_lt h).mpr lt
  have exponent : max ((n.log2 : Int) - 52) minExponent = -(52 - n.log2 : Nat) := by
    simp only [minExponent]
    omega
  have small : n * 2 ^ (52 - n.log2) < 2 * leastNormal := by
    calc n * 2 ^ (52 - n.log2)
        < 2 ^ (n.log2 + 1) * 2 ^ (52 - n.log2) :=
          Nat.mul_lt_mul_of_pos_right Nat.lt_log2_self (Nat.two_pow_pos _)
      _ = 2 ^ 53 := by rw [← Nat.pow_add]; congr 1; omega
      _ = 2 * leastNormal := rfl
  have noCarry : n * 2 ^ (52 - n.log2) ≠ 2 * leastNormal := Nat.ne_of_lt small
  have positive : n * 2 ^ (52 - n.log2) ≠ 0 :=
    Nat.mul_ne_zero h (Nat.ne_of_gt (Nat.two_pow_pos _))
  have inRange : ¬ maxExponent < (-(52 - n.log2 : Nat) : Int) := by
    simp only [maxExponent]
    omega
  -- The denominator is one, so nothing is rounded off.
  simp only [ofRatio, h, floorLog2_one h, exponent, scale_neg_natCast, Nat.one_mul, roundDiv_one,
    noCarry, positive, inRange, if_false]

/-- The nearest whole number of a shifted whole number is the number itself. -/
theorem roundInt64_shifted (negative : Bool) {n : Nat} (e : Nat) (h : n ≤ exactBound) :
    roundInt64 (.finite negative (n * 2 ^ e) (-e)) = withSign negative n := by
  simp only [roundInt64, scale_neg_natCast, roundDiv_mul .up n (Nat.two_pow_pos e)]
  simp only [exactBound] at h
  cases negative <;> simp only [clampInt64, withSign, minInt64, maxInt64, if_true] <;> omega

theorem roundInt64_ofRatio (negative : Bool) {n : Nat} (h : n ≤ exactBound) :
    roundInt64 (ofRatio negative n 1) = withSign negative n := by
  rcases Nat.eq_zero_or_pos n with rfl | pos
  · have zero (e : Nat) := roundInt64_shifted negative e h
    simp only [Nat.zero_mul] at zero
    exact zero 1074
  · rcases Nat.lt_or_eq_of_le h with lt | rfl
    · rw [ofRatio_one_of_lt negative (Nat.ne_of_gt pos) lt, roundInt64_shifted negative _ h]
    · cases negative <;> decide +kernel

/-- A whole number that goes in as a number comes back. -/
theorem roundInt64_ofInt {n : Int} (h : n.natAbs ≤ exactBound) : roundInt64 (ofInt n) = n := by
  rw [ofInt, roundInt64_ofRatio _ h, withSign]
  by_cases negative : n < 0
  · rw [if_pos (decide_eq_true negative)]
    omega
  · rw [if_neg (by simpa using negative)]
    omega

end Binary64

/-! Whole numbers as text. -/

theorem isBlank_of_isAsciiDigit {c : Char} (h : isAsciiDigit c = true) : isBlank c = false := by
  simp only [isAsciiDigit, Bool.and_eq_true, decide_eq_true_eq, Char.le_def] at h
  have low : 48 ≤ c.toNat := h.1
  have high : c.toNat ≤ 57 := h.2
  have blank := isBlank_iff_of_ascii c (by omega)
  rw [Bool.eq_false_iff]
  intro hb
  have := blank.mp hb
  omega

theorem dropWhile_isBlank {cs : List Char} (h : ∀ c ∈ cs, isBlank c = false) :
    cs.dropWhile isBlank = cs := by
  cases cs with
  | nil => rfl
  | cons c rest => simp [h c List.mem_cons_self]

/-- Text without blanks has none to trim. -/
theorem trim_eq_self {cs : List Char} (h : ∀ c ∈ cs, isBlank c = false) : trim cs = cs := by
  have reversed : ∀ c ∈ cs.reverse, isBlank c = false := fun c hc => h c (List.mem_reverse.mp hc)
  rw [trim, trimStart, dropWhile_isBlank h, trimEnd, dropWhile_isBlank reversed,
    List.reverse_reverse]

section Digits
variable {cs : List Char}

theorem spanAsciiDigits_of_digits (h : ∀ c ∈ cs, isAsciiDigit c = true) :
    spanAsciiDigits cs = (cs, []) := by
  rw [spanAsciiDigits, List.takeWhile_eq_self_iff.mpr h, List.dropWhile_eq_nil_iff.mpr h]

theorem readDecimal_of_digits (hne : cs ≠ []) (h : ∀ c ∈ cs, isAsciiDigit c = true) :
    readDecimal cs = some ⟨digitsValue cs, 0⟩ := by
  simp [readDecimal, spanAsciiDigits_of_digits h, hne, readPower]

/-- What starts with a digit is the name of no number. -/
theorem readBinary64_of_head {negative : Bool} {text rest : List Char} {c : Char}
    (sign : splitSign text = (negative, c :: rest)) (digit : isAsciiDigit c = true) :
    readBinary64 text = (readDecimal (c :: rest)).map (·.toBinary64 negative) := by
  have noName (name : String) (first : name.toList.head?.any isAsciiDigit = false) :
      String.ofList ((c :: rest).map lowerAscii) ≠ name := by
    rintro rfl
    have capital : ¬ ('A' ≤ c ∧ c ≤ 'Z') := by
      simp only [isAsciiDigit, Bool.and_eq_true, decide_eq_true_eq, Char.le_def] at digit ⊢
      have high : c.toNat ≤ 57 := digit.2
      rintro ⟨low, -⟩
      have low : 65 ≤ c.toNat := low
      omega
    rw [String.toList_ofList, List.map_cons, List.head?_cons, lowerAscii, if_neg capital,
      Option.any_some, digit] at first
    exact Bool.noConfusion first
  simp only [readBinary64, sign, noName "inf" rfl, noName "infinity" rfl, noName "nan" rfl,
    or_self, if_false]

theorem readBinary64_of_digits (negative : Bool) {text : List Char}
    (sign : splitSign text = (negative, cs)) (hne : cs ≠ [])
    (h : ∀ c ∈ cs, isAsciiDigit c = true) :
    readBinary64 text = some (.ofDecimal negative (digitsValue cs) 0) := by
  obtain ⟨c, rest, rfl⟩ := List.exists_cons_of_ne_nil hne
  rw [readBinary64_of_head sign (h c List.mem_cons_self), readDecimal_of_digits hne h]
  rfl

end Digits

theorem digitsValue_toString (n : Nat) : digitsValue (toString n).toList = n := by
  rw [Nat.toString_eq_ofList_toDigits, String.toList_ofList]
  exact Nat.ofDigitChars_ten_toDigits

theorem toString_ne_nil (n : Nat) : (toString n).toList ≠ [] := by
  rw [Nat.toString_eq_ofList_toDigits, String.toList_ofList]
  exact Nat.toDigits_ne_nil

/-- Up to the bound, the number of the format nearest to a whole number takes no power of ten. -/
theorem ofDecimal_zero (negative : Bool) {n : Nat} (h : n ≤ Binary64.exactBound) :
    Binary64.ofDecimal negative n 0 = .ofRatio negative n 1 := by
  have digits : (Nat.toDigits 10 n).length ≤ 16 := by
    refine (Nat.length_toDigits_le_iff (by decide) (by decide)).mpr ?_
    simp only [Binary64.exactBound] at h
    omega
  have notHuge : ¬ (310 : Int) < 0 + (Nat.toDigits 10 n).length := by omega
  have notTiny : ¬ 0 + ((Nat.toDigits 10 n).length : Int) < -330 := by omega
  by_cases zero : n = 0
  · simp [Binary64.ofDecimal, Binary64.ofRatio, zero]
  · simp only [Binary64.ofDecimal, zero, notHuge, notTiny, if_false, Int.le_refl, if_true]
    simp

/-- A whole number that goes in as text comes back. -/
theorem readCoordinate_toString {n : Int} (h : n.natAbs ≤ Binary64.exactBound) :
    readCoordinate (toString n) = some n := by
  have digits (m : Nat) : ∀ c ∈ (toString m).toList, isAsciiDigit c = true :=
    fun c => isAsciiDigit_of_mem_toString m
  have blanks (m : Nat) : ∀ c ∈ (toString m).toList, isBlank c = false :=
    fun c hc => isBlank_of_isAsciiDigit (digits m c hc)
  have value (negative : Bool) {text : List Char} {m : Nat} (hm : m ≤ Binary64.exactBound)
      (sign : splitSign text = (negative, (toString m).toList)) :
      (readBinary64 text).map Binary64.roundInt64 = some (Binary64.withSign negative m) := by
    rw [readBinary64_of_digits negative sign (toString_ne_nil m) (digits m), digitsValue_toString,
      ofDecimal_zero negative hm, Option.map_some, Binary64.roundInt64_ofRatio negative hm]
  cases n with
  | ofNat m =>
      have text : toString (Int.ofNat m) = toString m := rfl
      rw [readCoordinate, text, trim_eq_self (blanks m)]
      refine value false h ?_
      obtain ⟨c, rest, heq⟩ := List.exists_cons_of_ne_nil (toString_ne_nil m)
      have first := digits m c (heq ▸ List.mem_cons_self)
      rw [heq]
      unfold splitSign
      split <;> simp_all [isAsciiDigit]
  | negSucc m =>
      have text : (toString (Int.negSucc m)).toList = '-' :: (toString (m + 1)).toList := by
        have : toString (Int.negSucc m) = "-" ++ toString (m + 1) := rfl
        rw [this, String.toList_append]
        rfl
      have noBlank : ∀ c ∈ '-' :: (toString (m + 1)).toList, isBlank c = false := by
        rw [List.forall_mem_cons]
        exact ⟨by decide, blanks (m + 1)⟩
      rw [readCoordinate, text, trim_eq_self noBlank]
      exact value true h rfl

end BlockScript.Number
