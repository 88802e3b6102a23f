import BlockScript.Number.Text
import BlockScript.Proofs.Number.Nearest
import BlockScript.Proofs.Number.WholeText

/-! # A number and its text

A number that is written out reads back as itself. Its shortest digits lie in its interval, what
lies there is rounded to it, and reading takes the digits and their place for what they are. -/

namespace BlockScript.Number

open Text Names

/-! ### Digits, a point and a power of ten -/

section Parts
variable {whole fraction rest : List Char}

theorem spanAsciiDigits_append (h : ∀ c ∈ whole, isAsciiDigit c = true)
    (ends : ∀ c ∈ rest.head?, isAsciiDigit c = false) :
    spanAsciiDigits (whole ++ rest) = (whole, rest) := by
  cases rest with
  | nil => rw [List.append_nil, spanAsciiDigits_of_digits h]
  | cons c rest =>
      have stop : isAsciiDigit c = false := ends c rfl
      simp [spanAsciiDigits, List.takeWhile_append_of_pos h, List.dropWhile_append_of_pos h, stop]

/-- Digits that something else than a point follows. -/
theorem readDecimal_of_whole (hne : whole ≠ []) (h : ∀ c ∈ whole, isAsciiDigit c = true)
    (ends : ∀ c ∈ rest.head?, isAsciiDigit c = false ∧ c ≠ '.') :
    readDecimal (whole ++ rest) =
      (readPower rest).map fun power => ⟨digitsValue whole, power⟩ := by
  have first := spanAsciiDigits_append h fun c hc => (ends c hc).1
  cases rest with
  | nil =>
      rw [readDecimal, first]
      simp [hne]
  | cons c rest =>
      have point : c ≠ '.' := (ends c rfl).2
      simp [readDecimal, first, hne, point]

/-- Digits with a point among them. -/
theorem readDecimal_of_point (hne : whole ≠ []) (h : ∀ c ∈ whole ++ fraction, isAsciiDigit c = true)
    (ends : ∀ c ∈ rest.head?, isAsciiDigit c = false) :
    readDecimal (whole ++ '.' :: (fraction ++ rest)) = (readPower rest).map fun power =>
      ⟨digitsValue (whole ++ fraction), power - fraction.length⟩ := by
  obtain ⟨hw, hf⟩ := List.forall_mem_append.mp h
  have first : spanAsciiDigits (whole ++ '.' :: (fraction ++ rest)) =
      (whole, '.' :: (fraction ++ rest)) := by
    refine spanAsciiDigits_append hw fun c hc => ?_
    obtain rfl := Option.some.inj hc
    decide
  simp [readDecimal, first, spanAsciiDigits_append hf ends, hne]

end Parts

theorem digitsValue_zeros_append (k : Nat) (cs : List Char) :
    digitsValue (List.replicate k '0' ++ cs) = digitsValue cs := by
  induction k with
  | zero => rfl
  | succ k ih => exact ih

/-- What is written at a place is read with the same value. -/
theorem readDecimal_positional (digits : Nat) (place : Int) :
    readDecimal (positional digits place).toList =
      some ⟨digits * 10 ^ place.toNat, min place 0⟩ := by
  have hd : ∀ c ∈ (toString digits).toList, isAsciiDigit c = true :=
    fun c => isAsciiDigit_of_mem_toString digits
  have length : (toString digits).toList.length = (toString digits).length := String.length_toList
  rcases Int.lt_or_le place 0 with part | whole
  · obtain ⟨k, hk, rfl⟩ : ∃ k : Nat, 0 < k ∧ place = -(k : Int) :=
      ⟨(-place).toNat, by omega, by omega⟩
    have exponent : min (-(k : Int)) 0 = -(k : Int) := by omega
    have power : (-(k : Int)).toNat = 0 := by omega
    have ends : ∀ c ∈ ([] : List Char).head?, isAsciiDigit c = false := by simp
    rw [exponent, power, Nat.pow_zero, Nat.mul_one, positional, if_neg (by omega)]
    simp only [Int.neg_neg, Int.toNat_natCast]
    split
    · next among =>
        have front : (toString digits).toList.take ((toString digits).length - k) ≠ [] := by
          rw [ne_eq, List.take_eq_nil_iff]
          simp only [toString_ne_nil, or_false]
          omega
        have back : ((toString digits).toList.drop ((toString digits).length - k)).length = k := by
          rw [List.length_drop, length]
          omega
        have all : ∀ c ∈ (toString digits).toList.take ((toString digits).length - k) ++
            (toString digits).toList.drop ((toString digits).length - k),
            isAsciiDigit c = true := by rwa [List.take_append_drop]
        have read := readDecimal_of_point front all ends
        rw [List.append_nil, List.take_append_drop, digitsValue_toString, back] at read
        rw [String.toList_ofList, read]
        simp [readPower]
    · next before =>
        have text : ("0." ++ zeros (k - (toString digits).length) ++ toString digits).toList =
            ['0'] ++ '.' :: (List.replicate (k - (toString digits).length) '0' ++
              (toString digits).toList) := by
          simp [String.toList_append, zeros]
        have back : (List.replicate (k - (toString digits).length) '0' ++
            (toString digits).toList).length = k := by
          rw [List.length_append, List.length_replicate, length]
          omega
        have all : ∀ c ∈ ['0'] ++ (List.replicate (k - (toString digits).length) '0' ++
            (toString digits).toList), isAsciiDigit c = true := by
          rw [List.forall_mem_append, List.forall_mem_append]
          refine ⟨by simp [isAsciiDigit], fun c hc => ?_, hd⟩
          rw [List.eq_of_mem_replicate hc]
          decide
        have read := readDecimal_of_point (List.cons_ne_nil _ []) all ends
        have value : digitsValue (['0'] ++ (List.replicate (k - (toString digits).length) '0' ++
            (toString digits).toList)) = digits :=
          (digitsValue_zeros_append (k - (toString digits).length + 1) _).trans
            (digitsValue_toString digits)
        rw [List.append_nil, back, value] at read
        rw [text, read]
        simp [readPower]
  · obtain ⟨k, rfl⟩ := Int.eq_ofNat_of_zero_le whole
    obtain ⟨c, rest, hc, -⟩ := (isNumeral_positional digits k).exists_cons
    rw [readDecimal_of_digits (by simp [hc]) (all_isAsciiDigit_positional digits k),
      digitsValue_positional]
    simp

/-- The value that an unsigned decimal text denotes. It starts with a digit. -/
def Denotes (cs : List Char) (v : ℚ) : Prop :=
  ∃ c rest d, cs = c :: rest ∧ isAsciiDigit c = true ∧ readDecimal cs = some d ∧
    (d.coefficient : ℚ) * 10 ^ d.power = v

theorem denotes_positional (digits : Nat) (place : Int) :
    Denotes (positional digits place).toList (digits * 10 ^ place) := by
  obtain ⟨c, rest, hc, digit⟩ := (isNumeral_positional digits place).exists_cons
  refine ⟨c, rest, _, hc, digit, readDecimal_positional digits place, ?_⟩
  push_cast
  rw [mul_assoc, ← zpow_natCast, ← zpow_add₀ (by norm_num)]
  congr 2
  omega

/-- A whole number with a zero behind the point. -/
theorem denotes_positional_point (digits place : Nat) :
    Denotes ((positional digits place).toList ++ ['.', '0']) (digits * 10 ^ place) := by
  obtain ⟨c, rest, hc, digit⟩ := (isNumeral_positional digits place).exists_cons
  have all : ∀ c ∈ (positional digits place).toList ++ ['0'], isAsciiDigit c = true := by
    rw [List.forall_mem_append]
    exact ⟨all_isAsciiDigit_positional digits place, by simp [isAsciiDigit]⟩
  have ends : ∀ c ∈ ([] : List Char).head?, isAsciiDigit c = false := by simp
  have read := readDecimal_of_point (by simp [hc]) all ends
  have value : digitsValue ((positional digits place).toList ++ ['0']) =
      digits * 10 ^ place * 10 := by
    rw [← digitsValue_positional]
    exact digitsValue_append_zeros _ 1
  rw [value] at read
  refine ⟨c, rest ++ ['.', '0'], _, by rw [hc, List.cons_append], digit, read, ?_⟩
  push_cast
  norm_num
  ring

/-- A power of ten with its sign. -/
theorem readPower_mark (n : Int) :
    readPower ('e' :: ((if n < 0 then "-" else "+" : String).toList ++
      (toString n.natAbs).toList)) = some n := by
  have digits : (toString n.natAbs).toList.all isAsciiDigit = true :=
    List.all_eq_true.mpr fun c => isAsciiDigit_of_mem_toString n.natAbs
  have nonempty := toString_ne_nil n.natAbs
  have value := digitsValue_toString n.natAbs
  generalize (toString n.natAbs).toList = cs at digits nonempty value ⊢
  by_cases negative : n < 0
  · simp [readPower, splitSign, negative, digits, nonempty, value, Binary64.withSign,
      abs_of_neg negative]
  · simp [readPower, splitSign, negative, digits, nonempty, value, Binary64.withSign,
      abs_of_nonneg (Int.not_lt.mp negative)]

/-- One digit, the others behind the point, and a power of ten. -/
theorem denotes_scientific (digits : Nat) (n : Int) :
    Denotes ((toString digits).toList.take 1 ++
      (if (toString digits).toList.length ≤ 1 then [] else
        '.' :: (toString digits).toList.drop 1) ++
      'e' :: ((if n < 0 then "-" else "+" : String).toList ++ (toString n.natAbs).toList))
      (digits * 10 ^ (n - ((toString digits).toList.length - 1))) := by
  have power := readPower_mark n
  have hd : ∀ c ∈ (toString digits).toList, isAsciiDigit c = true :=
    fun c => isAsciiDigit_of_mem_toString digits
  have value := digitsValue_toString digits
  generalize ((if n < 0 then "-" else "+" : String).toList ++ (toString n.natAbs).toList) = mark
    at power ⊢
  obtain ⟨c, cs, hcs⟩ := List.exists_cons_of_ne_nil (toString_ne_nil digits)
  rw [hcs] at hd value ⊢
  have digit := hd c List.mem_cons_self
  have ends : ∀ x ∈ ('e' :: mark).head?, isAsciiDigit x = false ∧ x ≠ '.' := by
    intro x hx
    obtain rfl := Option.some.inj hx
    decide
  by_cases single : cs = []
  · subst single
    have read := readDecimal_of_whole (List.cons_ne_nil c []) hd ends
    rw [power, value] at read
    refine ⟨c, _, _, rfl, digit, read, ?_⟩
    simp
  · have read := readDecimal_of_point (List.cons_ne_nil c []) hd fun x hx => (ends x hx).1
    have joined : [c] ++ cs = c :: cs := rfl
    rw [power, joined, value] at read
    have long : ¬ (c :: cs).length ≤ 1 := by
      have := List.length_pos_iff.mpr single
      rw [List.length_cons]
      omega
    have text : List.take 1 (c :: cs) ++ '.' :: List.drop 1 (c :: cs) ++ 'e' :: mark =
        [c] ++ '.' :: (cs ++ 'e' :: mark) := by simp
    rw [if_neg long, text]
    exact ⟨c, _, _, rfl, digit, read, by simp⟩

/-! ### The text of a number -/

theorem splitSign_signText (negative : Bool) {c : Char} (rest : List Char)
    (digit : isAsciiDigit c = true) :
    splitSign ((signText negative).toList ++ c :: rest) = (negative, c :: rest) := by
  have minus : c ≠ '-' := by rintro rfl; exact absurd digit (by decide)
  have plus : c ≠ '+' := by rintro rfl; exact absurd digit (by decide)
  cases negative
  · simp [signText, splitSign, minus, plus]
  · simp [signText, splitSign]

/-- A text that denotes a value in the interval of a number is read as the number. -/
theorem readBinary64_of_denotes (negative : Bool) {m : Nat} {e : Int} {cs : List Char} {v : ℚ}
    (canonical : Binary64.Canonical m e) (hm : m ≠ 0) (denotes : Denotes cs v)
    (inside : (Interval.ofFinite m e).Contains v) :
    readBinary64 ((signText negative).toList ++ cs) = some (.finite negative m e) := by
  obtain ⟨c, rest, d, rfl, digit, read, rfl⟩ := denotes
  have positive : d.coefficient ≠ 0 := by
    have := Binary64.contains_pos inside hm
    rintro zero
    simp [zero] at this
  rw [readBinary64_of_head (splitSign_signText negative rest digit) digit, read, Option.map_some,
    Decimal.toBinary64, Binary64.ofDecimal_of_contains negative canonical hm positive inside]

namespace Binary64

section Written
variable {negative : Bool} {m : Nat} {e : Int}

theorem Canonical.eq_minExponent (canonical : Canonical 0 e) : e = minExponent :=
  canonical.normal.resolve_left (by decide)

/-- A sign and a text that denotes the shortest decimal are read as the number. -/
theorem readBinary64_of_shortest {tie : Tie} {text : String} (canonical : Canonical m e)
    (hm : m ≠ 0) (written : ∀ digits place, shortest tie m e = (digits, place) →
      ∃ body : String, text = signText negative ++ body ∧
        Denotes body.toList (digits * 10 ^ place)) :
    readBinary64 text.toList = some (.finite negative m e) := by
  obtain ⟨digits, place, he, -, inside⟩ := exists_shortest_contains tie canonical hm
  obtain ⟨body, rfl, denotes⟩ := written digits place he
  rw [String.toList_append]
  exact readBinary64_of_denotes negative canonical hm denotes inside

theorem exists_display (hm : m ≠ 0) {digits : Nat} {place : Int}
    (h : shortest .up m e = (digits, place)) :
    ∃ body : String, (finite negative m e).display = signText negative ++ body ∧
      Denotes body.toList (digits * 10 ^ place) :=
  ⟨_, by simp only [display, hm, h, if_false], denotes_positional digits place⟩

theorem exists_dataText (hm : m ≠ 0) {digits : Nat} {place : Int}
    (h : shortest .toEven m e = (digits, place)) :
    ∃ body : String, (finite negative m e).dataText = signText negative ++ body ∧
      Denotes body.toList (digits * 10 ^ place) := by
  simp only [dataText, hm, h, if_false]
  refine ⟨_, rfl, ?_⟩
  split
  · split
    · next whole =>
        obtain ⟨k, rfl⟩ := Int.eq_ofNat_of_zero_le whole
        rw [String.toList_append]
        exact denotes_positional_point digits k
    · rw [String.append_empty]
      exact denotes_positional digits place
  · have length : (toString digits).toList.length = (toString digits).length :=
      String.length_toList
    have denotes := denotes_scientific digits ((toString digits).length - 1 + place)
    have last : ((toString digits).length : Int) - 1 + place -
        ((toString digits).toList.length - 1) = place := by omega
    rw [last] at denotes
    simpa [String.toList_append] using denotes

end Written

variable {x : Binary64}

/-- A number reads back from the text that displays it. -/
theorem readBinary64_display (canonical : x.IsCanonical) :
    readBinary64 x.display.toList = some x := by
  cases x with
  | nan => decide +kernel
  | infinite negative => cases negative <;> decide +kernel
  | finite negative m e =>
      by_cases hm : m = 0
      · subst hm
        rw [Canonical.eq_minExponent canonical]
        cases negative <;> decide +kernel
      · exact readBinary64_of_shortest canonical hm fun _ _ h => exists_display hm h

/-- The number next to a tenth needs one digit. -/
example : (finite false 7205759403792794 (-56)).display = "0.1" ∧
    readBinary64 "0.1".toList = some (finite false 7205759403792794 (-56)) := by
  decide +kernel

/-- A number reads back from its text as data. -/
theorem readBinary64_dataText (canonical : x.IsCanonical) :
    readBinary64 x.dataText.toList = some x := by
  cases x with
  | nan => decide +kernel
  | infinite negative => cases negative <;> decide +kernel
  | finite negative m e =>
      by_cases hm : m = 0
      · subst hm
        rw [Canonical.eq_minExponent canonical]
        cases negative <;> decide +kernel
      · exact readBinary64_of_shortest canonical hm fun _ _ h => exists_dataText hm h

/-- What a script writes for a number reads back as the number, but for the sign of a zero. -/
theorem readBinary64_scriptText (canonical : x.IsCanonical) :
    readBinary64 x.scriptText.toList = some (if x.isZero then zero else x) := by
  unfold scriptText
  split
  · decide +kernel
  · exact readBinary64_display canonical

/-- The numeral without the sign reads back as the absolute value. -/
theorem readBinary64_magnitude (canonical : x.IsCanonical) :
    readBinary64 x.magnitude.scriptText.toList = some x.magnitude := by
  have absolute : x.magnitude.IsCanonical := by cases x <;> exact canonical
  rw [readBinary64_scriptText absolute]
  split
  · next isZero =>
      cases x with
      | nan => cases isZero
      | infinite negative => cases isZero
      | finite negative m e =>
          obtain rfl : m = 0 := by simpa [magnitude, Binary64.isZero] using isZero
          rw [magnitude, Canonical.eq_minExponent canonical, zero]
  · rfl

end Binary64

/-! ### The text in a field -/

section Blanks
variable {cs body : List Char} {negative : Bool}

theorem splitSign_cases (h : splitSign cs = (negative, body)) :
    cs = body ∨ cs = '-' :: body ∨ cs = '+' :: body := by
  unfold splitSign at h
  split at h <;> obtain ⟨-, rfl⟩ := Prod.mk.inj h
  · exact .inr (.inl rfl)
  · exact .inr (.inr rfl)
  · exact .inl rfl

theorem not_isBlank_of_splitSign (h : splitSign cs = (negative, body))
    (rest : ∀ c ∈ body, isBlank c = false) : ∀ c ∈ cs, isBlank c = false := by
  rcases splitSign_cases h with rfl | rfl | rfl
  · exact rest
  · exact List.forall_mem_cons.mpr ⟨by decide, rest⟩
  · exact List.forall_mem_cons.mpr ⟨by decide, rest⟩

theorem not_isBlank_of_readPower {n : Int} (h : readPower cs = some n) :
    ∀ c ∈ cs, isBlank c = false := by
  cases cs with
  | nil => exact List.forall_mem_nil _
  | cons c rest =>
      obtain ⟨mark, h⟩ := Option.ite_none_right_eq_some.mp h
      obtain ⟨digits, -⟩ := Option.ite_none_left_eq_some.mp h
      simp only [Bool.or_eq_true, Bool.not_eq_true', not_or, Bool.not_eq_false] at digits
      refine List.forall_mem_cons.mpr ⟨?_, not_isBlank_of_splitSign rfl fun c hc =>
        isBlank_of_isAsciiDigit (List.all_eq_true.mp digits.2 c hc)⟩
      rcases mark with rfl | rfl <;> decide

theorem not_isBlank_of_span (rest : ∀ c ∈ cs.dropWhile isAsciiDigit, isBlank c = false) :
    ∀ c ∈ cs, isBlank c = false := by
  intro c hc
  rw [← List.takeWhile_append_dropWhile (p := isAsciiDigit) (l := cs), List.mem_append] at hc
  rcases hc with digit | behind
  · exact isBlank_of_isAsciiDigit (List.mem_takeWhile_imp digit)
  · exact rest c behind

/-- A decimal has no blanks. -/
theorem not_isBlank_of_readDecimal {d : Decimal} (h : readDecimal cs = some d) :
    ∀ c ∈ cs, isBlank c = false := by
  refine not_isBlank_of_span ?_
  obtain ⟨-, h⟩ := Option.ite_none_left_eq_some.mp h
  obtain ⟨power, hp, -⟩ := Option.map_eq_some_iff.mp h
  split at hp
  · next point =>
      rw [point]
      exact List.forall_mem_cons.mpr
        ⟨by decide, not_isBlank_of_span (not_isBlank_of_readPower hp)⟩
  · exact not_isBlank_of_readPower hp

end Blanks

/-- The text of a finite number has no blanks. -/
theorem not_isBlank_of_readBinary64 {cs : List Char} {x : Binary64}
    (h : readBinary64 cs = some x) (finite : x.isFinite = true) : ∀ c ∈ cs, isBlank c = false := by
  refine not_isBlank_of_splitSign rfl ?_
  simp only [readBinary64] at h
  split_ifs at h
  · obtain rfl := Option.some.inj h
    cases finite
  · obtain rfl := Option.some.inj h
    cases finite
  · obtain ⟨d, read, -⟩ := Option.map_eq_some_iff.mp h
    exact not_isBlank_of_readDecimal read

/-- A field reads the text of a finite number as the number. -/
theorem readField_of_readBinary64 {text : String} {x : Binary64}
    (read : readBinary64 text.toList = some x) (finite : x.isFinite = true) :
    readField text = some x := by
  have named {cs : List Char} {y : Binary64} (hy : readBinary64 cs = some y)
      (infinite : y.isFinite = false) : text.toList ≠ cs := by
    intro same
    obtain rfl := Option.some.inj (read.symm.trans (same ▸ hy))
    rw [finite] at infinite
    cases infinite
  have nonempty : text.toList ≠ [] := by
    intro empty
    rw [empty] at read
    cases read
  have plain : readBinary64 "Infinity".toList = some (.infinite false) := by decide +kernel
  have signed : readBinary64 "+Infinity".toList = some (.infinite false) := by decide +kernel
  have negative : readBinary64 "-Infinity".toList = some (.infinite true) := by decide +kernel
  simp only [readField, trim_eq_self (not_isBlank_of_readBinary64 read finite), List.isEmpty_iff,
    nonempty, named plain rfl, named signed rfl, named negative rfl, or_self, if_false, read,
    Option.filter_some, finite, if_true]

section Field
variable {x : Binary64}

theorem isFinite_unsigned (finite : x.isFinite = true) :
    (if x.isZero then Binary64.zero else x).isFinite = true := by
  split
  · rfl
  · exact finite

/-- A finite number of a field is read again from what the script writes for it. -/
theorem readField_scriptText {text : String} (read : readField text = some x)
    (finite : x.isFinite = true) :
    readField x.scriptText = some (if x.isZero then .zero else x) :=
  readField_of_readBinary64 (Binary64.readBinary64_scriptText (isCanonical_readField read))
    (isFinite_unsigned finite)

/-- A finite number that is saved as data is the number of its field. -/
theorem readField_dataText (canonical : x.IsCanonical) (finite : x.isFinite = true) :
    readField x.dataText = some x :=
  readField_of_readBinary64 (Binary64.readBinary64_dataText canonical) finite

end Field

end BlockScript.Number
