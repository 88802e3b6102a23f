import BlockScript.Number.Text
import BlockScript.Proofs.Names.Fresh

/-! # Numbers as numerals

What a script writes for a finite number: digits, perhaps with a point among them, and a sign in
front of a negative one. -/

namespace BlockScript

open Text Names Number

/-- Digits, and a point with digits behind it or none. -/
def IsNumeral (cs : List Char) : Prop :=
  ∃ whole fraction, whole ≠ [] ∧ (∀ c ∈ whole ++ fraction, isAsciiDigit c = true) ∧
    (cs = whole ∨ fraction ≠ [] ∧ cs = whole ++ '.' :: fraction)

theorem IsNumeral.exists_cons {cs : List Char} (h : IsNumeral cs) :
    ∃ c rest, cs = c :: rest ∧ isAsciiDigit c = true := by
  obtain ⟨whole, fraction, hne, hall, hcs⟩ := h
  obtain ⟨c, rest, rfl⟩ := List.exists_cons_of_ne_nil hne
  rcases hcs with rfl | ⟨-, rfl⟩
  · exact ⟨c, rest, rfl, hall c List.mem_cons_self⟩
  · exact ⟨c, rest ++ '.' :: fraction, rfl, hall c List.mem_cons_self⟩

theorem isNumeral_of_digits {cs : List Char} (hne : cs ≠ [])
    (h : ∀ c ∈ cs, isAsciiDigit c = true) : IsNumeral cs :=
  ⟨cs, [], hne, by simpa using h, .inl rfl⟩

theorem isNumeral_of_all {cs : List Char} (hne : cs ≠ []) (h : cs.all isAsciiDigit = true) :
    IsNumeral cs :=
  isNumeral_of_digits hne (List.all_eq_true.mp h)

theorem isNumeral_of_point {whole fraction : List Char} (hw : whole ≠ []) (hf : fraction ≠ [])
    (h : ∀ c ∈ whole ++ fraction, isAsciiDigit c = true) : IsNumeral (whole ++ '.' :: fraction) :=
  ⟨whole, fraction, hw, h, .inr ⟨hf, rfl⟩⟩

theorem isAsciiDigit_of_mem_zeros {n : Nat} {c : Char} (h : c ∈ (zeros n).toList) :
    isAsciiDigit c = true := by
  rw [zeros, String.toList_ofList] at h
  rw [List.eq_of_mem_replicate h]
  decide

/-- Whatever the digits and the place of the last one are, a numeral comes out. -/
theorem isNumeral_positional (digits : Nat) (place : Int) :
    IsNumeral (positional digits place).toList := by
  have hd : ∀ c ∈ (toString digits).toList, isAsciiDigit c = true :=
    fun c => isAsciiDigit_of_mem_toString digits
  unfold positional
  split
  · apply isNumeral_of_digits
    · simp
    · intro c hc
      rw [String.toList_append] at hc
      rcases List.mem_append.mp hc with hc | hc
      · exact hd c hc
      · exact isAsciiDigit_of_mem_zeros hc
  · dsimp only
    split
    · next hlt =>
        -- The point stands among the digits.
        rw [String.toList_ofList]
        have hl : (toString digits).toList.length = (toString digits).length :=
          String.length_toList
        apply isNumeral_of_point
        · intro h
          have h' := congrArg List.length h
          simp only [List.length_take, List.length_nil, hl] at h'
          omega
        · intro h
          have h' := congrArg List.length h
          simp only [List.length_drop, List.length_nil, hl] at h'
          omega
        · rw [List.take_append_drop]
          exact hd
    · -- The point stands in front of the digits, and zeros between them.
      have point (more : String) : ("0." ++ more).toList = ['0'] ++ '.' :: more.toList := by
        simp [String.toList_append]
      rw [String.append_assoc, point, String.toList_append]
      apply isNumeral_of_point
      · simp
      · simp
      · intro c hc
        rcases List.mem_append.mp hc with hc | hc
        · rw [List.mem_singleton.mp hc]
          decide
        · rcases List.mem_append.mp hc with hc | hc
          · exact isAsciiDigit_of_mem_zeros hc
          · exact hd c hc

/-- The absolute value. -/
def Number.Binary64.magnitude : Binary64 → Binary64
  | .finite _ m e => .finite false m e
  | .infinite _ => .infinite false
  | .nan => .nan

namespace Number.Binary64
variable {x : Binary64}

/-- A number that is not negative is written as a numeral. -/
theorem isNumeral_scriptText (finite : x.isFinite = true) (h : x.isNegative = false) :
    IsNumeral x.scriptText.toList := by
  cases x with
  | nan => exact Bool.noConfusion finite
  | infinite negative => exact Bool.noConfusion finite
  | finite negative m e =>
      unfold scriptText
      split
      · exact isNumeral_of_all (by decide) (by decide)
      · next hz =>
          have hm : m ≠ 0 := by simpa [isZero] using hz
          have hn : negative = false := by simpa [isNegative, hm] using h
          simpa [display, hm, hn, signText] using isNumeral_positional _ _

theorem isNegative_magnitude : x.magnitude.isNegative = false := by
  cases x <;> simp [magnitude, isNegative]

theorem isFinite_magnitude (finite : x.isFinite = true) : x.magnitude.isFinite = true := by
  cases x with
  | nan => exact Bool.noConfusion finite
  | infinite negative => exact Bool.noConfusion finite
  | finite negative m e => rfl

/-- A number below zero has a sign in front, and no other one has. -/
theorem scriptText_eq_signText (finite : x.isFinite = true) :
    x.scriptText = signText x.isNegative ++ x.magnitude.scriptText := by
  cases x with
  | nan => cases finite
  | infinite negative => cases finite
  | finite negative m e =>
      by_cases hm : m = 0
      · simp [scriptText, isZero, magnitude, isNegative, hm, signText]
      · cases negative <;> simp [scriptText, isZero, magnitude, isNegative, display, hm, signText]

/-- A negative number is written with a sign in front of its absolute value. -/
theorem scriptText_of_isNegative (finite : x.isFinite = true) (h : x.isNegative = true) :
    x.scriptText = "-" ++ x.magnitude.scriptText := by
  rw [scriptText_eq_signText finite, h]
  rfl

end Number.Binary64

end BlockScript
