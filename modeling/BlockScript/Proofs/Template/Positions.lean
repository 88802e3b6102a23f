import Mathlib.Data.Int.Cast.Lemmas
import BlockScript.Proofs.Expression.Faithful
import BlockScript.Proofs.Expression.NumericLiteral
import BlockScript.Template.Position

/-! # Indices are shifted exactly

The code of an index goes into a script with a whole number added to it: folded into a literal, as
a sum or a difference, or not at all. Whichever it is, the code is parsed as an expression that fits
its place, and its value is that of the index, shifted. -/

namespace BlockScript

open Text Names Number Template

universe u

theorem IsWholeNumeral.isWholeText {text : String} (h : IsWholeNumeral text) :
    ∃ n, IsWholeText n text.toList := by
  obtain ⟨raw, x, n, read, whole, rfl⟩ := h
  exact ⟨n.natAbs, isWholeText_of_whole (isCanonical_readField read) whole⟩

theorem Number.IsWholeText.splitSign_eq {n : Nat} {cs : List Char} (h : IsWholeText n cs) :
    splitSign cs = (false, cs) := by
  obtain ⟨c, rest, rfl⟩ := List.exists_cons_of_ne_nil h.ne_nil
  have digit := h.digits c List.mem_cons_self
  unfold splitSign
  split
  · exact absurd digit (by simp_all [isAsciiDigit])
  · exact absurd digit (by simp_all [isAsciiDigit])
  · rfl

/-- No whole number is written as 2^53 + 1, which the format does not have. -/
theorem Number.IsWholeText.le_or_lt {n : Nat} {cs : List Char} (h : IsWholeText n cs) :
    digitsValue cs ≤ exactBound ∨ exactBound + 1 < digitsValue cs := by
  by_cases small : n ≤ exactBound
  · exact .inl (h.exact small ▸ small)
  · exact .inr (h.large (Nat.lt_of_not_le small))

/-- A literal with up to 2^53 for its absolute value is folded, a larger one is not. -/
theorem foldIndex_eq {code : String} {n : Nat} {cs : List Char} {negative : Bool} (shift : Int)
    (h : IsWholeText n cs) (sign : splitSign (trim code.toList) = (negative, cs)) :
    foldIndex code shift =
      if digitsValue cs ≤ exactBound then
        some (Binary64.withSign negative (digitsValue cs) + shift)
      else none := by
  unfold foldIndex
  rcases h.le_or_lt with le | lt
  · rw [truncate_of_digits_le sign h.ne_nil h.digits le, if_pos le]
    simp only [natAbs_withSign, Nat.not_lt.mpr le, if_false]
  · have beyond : ¬ digitsValue cs ≤ exactBound := by omega
    rw [if_neg beyond]
    cases truncated : (readBinary64 (trim code.toList)).bind Binary64.truncate? with
    | none => rfl
    | some base =>
        have large : exactBound < base.natAbs :=
          lt_of_truncate_of_digits sign h.ne_nil h.digits lt truncated
        simp only [large, if_true]

/-- What is folded is the number that the literal says, shifted. -/
theorem eq_of_foldIndex {code : String} {n : Nat} {cs : List Char} {negative : Bool}
    {shift folded : Int} (h : IsWholeText n cs)
    (sign : splitSign (trim code.toList) = (negative, cs))
    (hf : foldIndex code shift = some folded) :
    Binary64.withSign negative (digitsValue cs) + shift = folded := by
  rw [foldIndex_eq shift h sign] at hf
  exact Option.some.inj (Option.ite_none_right_eq_some.mp hf).2

/-- A whole number is a literal, with a sign in front of it if it is negative. -/
theorem exists_spells_int (n : Int) (required : Precedence)
    (loose : Precedence.unaryPrefix.rank ≤ required.rank) :
    ∃ e, Spells (toString n) required e ∧
      ∀ (R : Type u) [CommRing R] (a : Arithmetic R), a.value e = some (n : R) := by
  have digits (m : Nat) : IsNumeral (toString m).toList :=
    isNumeral_of_digits (toString_ne_nil m) fun c => isAsciiDigit_of_mem_toString m
  have value (m : Nat) (R : Type u) [CommRing R] (a : Arithmetic R) :
      a.value (.numeral (toString m)) = some (m : R) := by
    have all : (toString m).toList.all isAsciiDigit = true :=
      List.all_eq_true.mpr fun c => isAsciiDigit_of_mem_toString m
    rw [Arithmetic.value, if_pos all, digitsValue_toString]
  cases n with
  | ofNat m =>
      refine ⟨.numeral (toString m), (Spells.numeral (digits m)).mono (Nat.zero_le _), ?_⟩
      intro R _ a
      rw [value]
      simp
  | negSucc m =>
      have text : toString (Int.negSucc m) = PrefixOperator.minus.sign ++ toString (m + 1) := rfl
      refine ⟨.prefixed .minus (.numeral (toString (m + 1))), ?_, ?_⟩
      · rw [text]
        have operand := Spells.numeral (digits (m + 1))
        refine (Spells.prefixed .minus (operand.mono (Nat.zero_le _)) ?_).mono loose
        obtain ⟨c, rest, hc, digit⟩ := (digits (m + 1)).exists_cons
        rw [hc]
        rintro ⟨rfl⟩
        exact absurd digit (by decide)
      · intro R _ a
        rw [Arithmetic.value, value]
        simp [Int.negSucc_eq]

/-! ### Sums -/

/-- The level that the code of an index has in its place. -/
def indexLevel (shift : Int) (required : Precedence) : Precedence :=
  if shift ≠ 0 then .additive else required

/-- Code, the sign of a sum or a difference, and a whole number. -/
theorem exists_spells_sum {op : Operator} (level : op.level = .additive) {sign code : String}
    (text : sign = " " ++ op.sign ++ " ") {e : Expression} (left : Spells code .additive e)
    (n : Int) (required : Precedence) :
    ∃ e', Spells (Precedence.wrap (code ++ sign ++ toString n) .additive required) required e' ∧
      ∀ (R : Type u) [CommRing R] (a : Arithmetic R),
        a.value e' = (a.value e).bind fun x => a.apply op x (n : R) := by
  obtain ⟨summand, right, value⟩ := exists_spells_int.{u} n .multiplicative (by decide)
  refine ⟨.infixed op e summand, ?_, fun R _ a => ?_⟩
  · have tighter : op.level.tighter = .multiplicative := by
      rw [level]
      rfl
    rw [← level] at left ⊢
    rw [← tighter] at right
    exact (left.infixed_text op text right).wrap required
  · rw [Arithmetic.value, value R a]
    rfl

/-- A sum or a difference has the value of the index, shifted. -/
theorem exists_spells_shiftedCode {code : String} {e : Expression} {shift : Int}
    {required : Precedence} (h : Spells code (indexLevel shift required) e) :
    ∃ e', Spells (shiftedCode code shift required) required e' ∧
      ∀ (R : Type u) [CommRing R] (a : Arithmetic R),
        a.value e' = (a.value e).map (· + (shift : R)) := by
  unfold shiftedCode
  split
  · next positive =>
      have left : Spells code .additive e := by simpa [indexLevel, Int.ne_of_gt positive] using h
      obtain ⟨e', spells, value⟩ :=
        @exists_spells_sum.{u} .plus rfl _ _ rfl _ left shift required
      refine ⟨e', spells, fun R _ a => ?_⟩
      rw [value R a]
      cases a.value e <;> rfl
  · split
    · next negative =>
        have left : Spells code .additive e := by simpa [indexLevel, Int.ne_of_lt negative] using h
        obtain ⟨e', spells, value⟩ :=
          @exists_spells_sum.{u} .minus rfl _ _ rfl _ left (-shift) required
        refine ⟨e', spells, fun R _ a => ?_⟩
        rw [value R a]
        cases a.value e with
        | none => rfl
        | some x => simp [Arithmetic.apply]
    · obtain rfl : shift = 0 := by omega
      refine ⟨e, by simpa [indexLevel] using h, fun R _ a => ?_⟩
      simp

/-- The value of a numeral. -/
theorem value_of_isWholeText {R : Type u} [CommRing R] (a : Arithmetic R) {n : Nat} {text : String}
    (h : IsWholeText n text.toList) :
    a.value (.numeral text) = some ((digitsValue text.toList : Nat) : R) := by
  rw [Arithmetic.value, if_pos (List.all_eq_true.mpr h.digits)]

/-- What is folded is a literal, and its value is the shifted one. -/
theorem value_of_foldIndex {code : String} {level : Precedence} {e : Expression}
    {shift folded : Int} (h : Spells code level e) (arithmetic : e.IsArithmetic)
    (numeric : isNumericLiteral code = true)
    (hf : foldIndex code shift = some folded) {R : Type u} [CommRing R] (a : Arithmetic R) :
    (a.value e).map (· + (shift : R)) = some (folded : R) := by
  -- Code of that shape is a literal or the negation of one, whatever the blocks behind it were.
  obtain ⟨text, known, literal⟩ := h.whole_of_isNumericLiteral arithmetic numeric
  obtain ⟨n, whole⟩ := known.isWholeText
  rcases literal with ⟨trimmed, rfl⟩ | ⟨trimmed, rfl⟩
  · have sign : splitSign (trim code.toList) = (false, text.toList) := by
      rw [trimmed]
      exact whole.splitSign_eq
    rw [← eq_of_foldIndex whole sign hf, value_of_isWholeText a whole]
    simp [Binary64.withSign]
  · have sign : splitSign (trim code.toList) = (true, text.toList) := by
      rw [trimmed]
      rfl
    rw [← eq_of_foldIndex whole sign hf, Arithmetic.value, value_of_isWholeText a whole]
    simp [Binary64.withSign]

/-- Whatever becomes of the code of an index, it is read as the index, shifted. -/
theorem exists_spells_shiftIndex {code : String} {e : Expression} {shift : Int}
    {required : Precedence} (loose : Precedence.unaryPrefix.rank ≤ required.rank)
    (h : Spells code (indexLevel shift required) e) (arithmetic : e.IsArithmetic) :
    ∃ e', Spells (shiftIndex code shift required) required e' ∧
      ∀ (R : Type u) [CommRing R] (a : Arithmetic R),
        a.value e' = (a.value e).map (· + (shift : R)) := by
  unfold shiftIndex
  split
  · next folded hf =>
      obtain ⟨numeric, hf⟩ := Option.ite_none_right_eq_some.mp hf
      obtain ⟨e', spells, value⟩ := exists_spells_int.{u} folded required loose
      refine ⟨e', spells, fun R _ a => ?_⟩
      rw [value R a, value_of_foldIndex h arithmetic numeric hf a]
  · exact exists_spells_shiftedCode h

section Literal
variable {raw : String} {x : Binary64} {n : Int}

end Literal

/-! ### The first index -/

/-- The first index. -/
def Options.firstIndexValue (o : Options) : Int := if o.oneBasedIndex then 1 else 0

theorem natAbs_firstIndexValue_le (o : Options) : o.firstIndexValue.natAbs ≤ exactBound := by
  unfold Options.firstIndexValue
  split <;> decide

/-- The value of an index; a missing one is the first. -/
def Arithmetic.indexValue {R : Type u} [CommRing R] (a : Arithmetic R) (o : Options) :
    Option Expression → Option R
  | none => some (o.firstIndexValue : R)
  | some e => a.value e

/-- The default of an index is the first one, as a block would write it. -/
theorem exists_whole_firstIndex (o : Options) :
    ∃ x, readField o.firstIndex = some x ∧ x.whole? = some o.firstIndexValue ∧
      x.scriptText = o.firstIndex ∧ x.magnitude.scriptText = o.firstIndex := by
  rw [Options.firstIndex, Options.firstIndexValue]
  cases o.oneBasedIndex with
  | true => exact ⟨.finite false Binary64.leastNormal (-52), by decide +kernel⟩
  | false => exact ⟨.finite false 0 (-1074), by decide +kernel⟩

/-- The default of an index is a literal with the value of the first one. -/
theorem exists_firstIndex (o : Options) :
    ∃ e, Spells o.firstIndex .atomic e ∧ e.IsArithmetic ∧
      ∀ (R : Type u) [CommRing R] (a : Arithmetic R), a.value e = a.indexValue o none := by
  obtain ⟨x, read, whole, -, text⟩ := exists_whole_firstIndex o
  have written := isWholeText_of_whole (isCanonical_readField read) whole
  rw [text] at written
  refine ⟨.numeral o.firstIndex, ?_, .numeral ⟨_, x, _, read, whole, text.symm⟩, fun R _ a => ?_⟩
  · exact Spells.numeral (isNumeral_of_digits written.ne_nil written.digits)
  · rw [value_of_isWholeText a written, written.exact (natAbs_firstIndexValue_le o),
      Arithmetic.indexValue, Options.firstIndexValue]
    split <;> simp

theorem IsWholeNumeral.zero : IsWholeNumeral "0" :=
  ⟨"0", .finite false 0 (-1074), 0, by decide +kernel⟩

/-- A whole number is arithmetic, of whatever sign. -/
theorem Expression.IsArithmetic.ofNumber {raw : String} {x : Binary64} {n : Int}
    (read : readField raw = some x) (whole : x.whole? = some n) : (ofNumber x).IsArithmetic := by
  have known : IsWholeNumeral x.magnitude.scriptText := ⟨raw, x, n, read, whole, rfl⟩
  unfold Expression.ofNumber
  split
  · exact .negation (.numeral known)
  · next positive =>
      rw [Binary64.scriptText_eq_signText (Binary64.isFinite_of_whole whole),
        Bool.eq_false_of_not_eq_true positive, signText]
      simpa using Expression.IsArithmetic.numeral known

/-- Forms of arithmetic on whole numbers. -/
def Form.IsArithmetic : Form → Prop
  | constant e => e.IsArithmetic
  | named _ => True
  | infixed op _ _ => op ∈ Operator.arithmetic
  | prefixed op _ default => op = .minus ∧ default.IsArithmetic
  | _ => False

/-- What a form of arithmetic denotes is arithmetic if its operands are. -/
theorem Form.IsArithmetic.denote {form : Form} (h : form.IsArithmetic) (names : String → String)
    {arg : String → Option Expression} (operands : ∀ input, ∀ e ∈ arg input, e.IsArithmetic) :
    (form.denote names arg).IsArithmetic := by
  have operand (input : String) {default : Expression} (hd : default.IsArithmetic) :
      ((arg input).getD default).IsArithmetic := by
    cases given : arg input with
    | none => exact hd
    | some e => exact operands input e given
  have zero : Expression.zero.IsArithmetic := .numeral .zero
  cases form with
  | constant e => exact h
  | named raw => exact .name _
  | infixed op left right => exact .infixed h (operand left zero) (operand right zero)
  | prefixed op input default =>
      obtain ⟨rfl, hd⟩ := h
      exact .negation (operand input hd)
  | connective op neutral => exact h.elim
  | power => exact h.elim
  | choice => exact h.elim
  | property test => exact h.elim

namespace Block

/-! ### Indices in inputs -/

variable {o : Options} {b child : Block} {input remarks : String} {ledger : Ledger}
  {index : Option Expression}

/-- A block with a whole number. -/
structure IsWholeNumber (b : Block) (x : Binary64) (n : Int) : Prop where
  enabled : b.node.disabled = false
  known : Kind.ofTypeName? b.node.kindName = some .mathNumber
  read : readField ((b.node.field "NUM").getD "0") = some x
  whole : x.whole? = some n

/-- A block with a number is rendered as the number is written. -/
theorem IsWholeNumber.render_eq {x : Binary64} {n : Int} (h : child.IsWholeNumber x n)
    (o : Options) :
    child.render o .value true =
      .pure (.value x.scriptText (if x.isNegative then .unaryPrefix else .atomic)) := by
  have finite := Binary64.isFinite_of_whole h.whole
  have written : Template.numeral x =
      .value x.scriptText (if x.isNegative then .unaryPrefix else .atomic) := by
    unfold Template.numeral
    rw [if_neg (by rintro rfl; cases finite), if_neg (by rintro rfl; cases finite)]
    split <;> rfl
  rw [Block.render_eq, renderNode, h.enabled]
  simp only [Bool.false_eq_true, if_false, h.known, Kind.script, mathNumber, h.read, written]
  simp [Script.run, surround, remarksAt]

/-! ### Trees of arithmetic -/

/-- Trees of arithmetic on whole numbers. A disabled block may be any. -/
inductive IsArithmetic : Block → Prop
  | disabled {b : Block} (off : b.node.disabled = true) : IsArithmetic b
  | enabled {b : Block} {form : Form} (on : b.node.disabled = false)
      (shown : b.node.form? = some form) (arithmetic : form.IsArithmetic)
      (inputs : ∀ input ∈ b.values, IsArithmetic input.2) : IsArithmetic b

theorem IsArithmetic.isExpression (h : b.IsArithmetic) : b.isExpression = true := by
  induction h with
  | disabled off => rw [isExpression_eq, off, Bool.true_or]
  | enabled on shown arithmetic inputs ih =>
      rw [isExpression_eq, on, shown, (inputsAreExpressions_iff _).mpr ih]
      rfl

/-- A tree of arithmetic denotes arithmetic. -/
theorem IsArithmetic.meaning (h : b.IsArithmetic) (names : String → String) :
    ∀ e ∈ b.meaning names, e.IsArithmetic := by
  induction h with
  | disabled off =>
      rw [meaning_eq, if_pos off]
      exact nofun
  | @enabled b form on shown arithmetic inputs ih =>
      rw [meaning_eq, on, shown]
      rintro e ⟨rfl⟩
      refine arithmetic.denote names fun input e he => ?_
      obtain ⟨child, plugged, denoted⟩ := Option.bind_eq_some_iff.mp he
      exact ih _ (Table.mem_of_get? plugged) e denoted

/-- A number goes into a place as it is written, unless the place is too tight for a sign. -/
theorem IsWholeNumber.valueIn_eq {x : Binary64} {n : Int} (number : child.IsWholeNumber x n)
    (plugged : b.value? input = some child) {level : Precedence}
    (loose : Precedence.unaryPrefix.rank ≤ level.rank) :
    (b.surroundings o remarks).valueIn input level = .pure (some x.scriptText) := by
  have written := (isWholeText_of_whole (isCanonical_readField number.read) number.whole).ne_nil
  have nonempty : x.scriptText ≠ "" := by
    rw [Binary64.scriptText_eq_signText (Binary64.isFinite_of_whole number.whole), ne_eq,
      String.append_eq_empty_iff]
    rintro ⟨-, empty⟩
    exact written (by rw [empty]; rfl)
  have fits : (if x.isNegative then Precedence.unaryPrefix else .atomic).rank ≤ level.rank := by
    split
    · exact loose
    · exact Nat.zero_le _
  rw [valueIn_of_plugged plugged, number.render_eq, Pass.pure_andThen, valueCode, if_neg nonempty,
    Precedence.wrap, if_neg (by simpa using fits)]

end Block

end BlockScript
