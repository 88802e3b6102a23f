import BlockScript.Proofs.Template.Tidiness
import BlockScript.Template.Element
import BlockScript.Template.Function
import BlockScript.Template.ListValue
import BlockScript.Template.Text

/-! # Expressions are tidy

The scripts of operators, functions, texts and lists keep the contract of tidy code. A template that
mentions a module has asked for its import first. -/

namespace BlockScript

open Template Script Names Number

/-! Numerals. -/

theorem IsNumeral.isInert {cs : List Char} (h : IsNumeral cs) : IsInert cs := by
  obtain ⟨whole, fraction, -, digits, rfl | ⟨-, rfl⟩⟩ := h
  · exact isInert_of_digits fun c hc => digits c (List.mem_append_left _ hc)
  · intro c hc
    have inert := isInert_of_digits digits
    rcases List.mem_append.mp hc with hc | hc
    · exact inert c (List.mem_append_left _ hc)
    · rcases List.mem_cons.mp hc with rfl | hc
      · decide
      · exact inert c (List.mem_append_right _ hc)

namespace Template

section Numbers
variable {s : Scope}

theorem isExpression_numeral {text : String} (h : IsNumeral text.toList) : s.IsExpression text := by
  refine .of_inert ?_ h.isInert
  rintro rfl
  obtain ⟨c, rest, hcs, -⟩ := h.exists_cons
  simp at hcs

theorem isExpression_scriptText (x : Binary64) : s.IsExpression x.scriptText := by
  cases x with
  | nan => exact .literal rfl (by decide)
  | infinite negative =>
      have text : (Binary64.infinite negative).scriptText = signText negative ++ "inf" := rfl
      rw [text]
      cases negative <;> constructor <;>
        simp (disch := (apply joins_of_chars rfl; decide)) [signText]
  | finite negative m e =>
      cases hn : (Binary64.finite negative m e).isNegative with
      | false => exact isExpression_numeral (Binary64.isNumeral_scriptText rfl hn)
      | true =>
          have magnitude := isExpression_numeral (s := s) (Binary64.isNumeral_scriptText
            (x := (Binary64.finite negative m e).magnitude) rfl Binary64.isNegative_magnitude)
          rw [Binary64.scriptText_of_isNegative rfl hn]
          constructor
          · simp
          · simp (disch := (apply joins_of_chars rfl; decide)) [magnitude.mentions]

theorem mentionsOnly_oneDecimal {F : Module → Prop} (x : Binary64) (v : View) :
    MentionsOnly F v x.oneDecimal := by
  cases x with
  | nan => exact .literal (joins_of_chars rfl (by decide))
  | infinite negative =>
      cases negative <;>
        simp (disch := (apply joins_of_chars rfl; decide)) [Binary64.oneDecimal, signText]
  | finite negative m e =>
      have digits (k : Nat) : MentionsOnly F v k.repr := .of_inert (isInert_toString k)
      cases negative <;>
        simp (disch := (apply joins_of_chars rfl; decide)) [Binary64.oneDecimal, signText, digits]

theorem isExpression_toString (n : Nat) : s.IsExpression (toString n) :=
  .of_inert (by simp) (isInert_toString n)

theorem isExpression_toString_int (i : Int) : s.IsExpression (toString i) := by
  cases i with
  | ofNat n => exact isExpression_toString n
  | negSucc n =>
      have text : toString (Int.negSucc n) = "-" ++ toString (n + 1) := rfl
      have digits : s.IsExpression (n + 1).repr := isExpression_toString (n + 1)
      rw [text]
      constructor
      · simp
      · simp (disch := (apply joins_of_chars rfl; decide)) [digits.mentions]

end Numbers

variable {s : Scope} {o : Options} {n : Node}

/-- A field that a block cannot do without. -/
theorem tidy_requiredField (plain : n.Plain s.texts) {field : String} {cs : List Char}
    (literal : field = String.ofList cs) (h : isHarmless cs = true) :
    (n.requiredField field).Honours s.tidy fun value => n.field field = some value := by
  unfold Node.requiredField
  split
  · next value hv => exact hv
  · exact plain.missingField literal h

/-! Operators. -/

theorem tidy_binary {operator : String} (h : isPlain [] operator = true) (level : Precedence) :
    (binary operator level).Honours s.tidy s.IsCode := by
  refine .andThen (.valueOr_literal rfl (by decide)) fun a ha => ?_
  refine .andThen (.valueOr_literal rfl (by decide)) fun b hb => ?_
  constructor
  · simp
  · simp (disch := (apply joins_of_chars rfl; decide)) [ha.mentions, hb.mentions, MentionsOnly.literal h]

theorem isCode_numeral (x : Binary64) : s.IsCode (numeral x) := by
  unfold numeral
  split
  · exact .literal rfl (by decide)
  · split
    · exact .literal rfl (by decide)
    · split <;> exact isExpression_scriptText x

theorem tidy_mathNumber (plain : n.Plain s.texts) : (mathNumber n).Honours s.tidy s.IsCode := by
  unfold mathNumber
  dsimp only
  split
  · next x _ => exact isCode_numeral x
  · have raw := plain.fieldOr "NUM" "0" (joins_of_chars rfl (by decide))
    exact plain.invalidNumber raw.to_whole

theorem isPlain_arithmeticOperator {op operator : String} {level : Precedence}
    (h : arithmeticOperator? op = some (operator, level)) : isPlain [] operator = true := by
  unfold arithmeticOperator? at h
  split at h <;> cases h <;> exact joins_of_chars rfl (by decide)

theorem tidy_power : power.Honours s.tidy s.IsCode := by
  refine .andThen (.requireModule .math) fun _ imported => ?_
  refine .andThen (.valueOr_literal rfl (by decide)) fun a ha => ?_
  refine .andThen (.valueOr_literal rfl (by decide)) fun b hb => ?_
  constructor
  · simp
  · simp (disch := (apply joins_of_chars rfl; decide)) [MentionsOnly.opening_append imported, ha.mentions, hb.mentions]

theorem tidy_mathArithmetic (plain : n.Plain s.texts) :
    (mathArithmetic n).Honours s.tidy s.IsCode := by
  refine .andThen (tidy_requiredField plain rfl (by decide)) fun op hop => ?_
  split
  · next operator level h => exact tidy_binary (isPlain_arithmeticOperator h) level
  · split
    · exact tidy_power
    · exact plain.unknownField rfl (by decide) hop

theorem tidy_mathModulo : mathModulo.Honours s.tidy s.IsCode := by
  refine .andThen (.valueOr_literal rfl (by decide)) fun a ha => ?_
  refine .andThen (.valueOr_literal rfl (by decide)) fun b hb => ?_
  constructor
  · simp
  · simp (disch := (apply joins_of_chars rfl; decide)) [ha.mentions, hb.mentions]

theorem tidy_negation : negation.Honours s.tidy s.IsCode := by
  refine .andThen (.valueOr_literal rfl (by decide)) fun operand h => ?_
  have minus : s.IsExpression (minus operand) := by
    unfold Template.minus
    split
    all_goals
      constructor
      · simp
      · simp (disch := (apply joins_of_chars rfl; decide)) [h.mentions]
  exact minus

theorem isPlain_comparison {op operator : String} {level : Precedence}
    (h : comparison? op = some (operator, level)) : isPlain [] operator = true := by
  unfold comparison? at h
  split at h <;> cases h <;> exact joins_of_chars rfl (by decide)

theorem tidy_logicCompare (plain : n.Plain s.texts) :
    (logicCompare n).Honours s.tidy s.IsCode := by
  refine .andThen (tidy_requiredField plain rfl (by decide)) fun op hop => ?_
  split
  · next operator level h => exact tidy_binary (isPlain_comparison h) level
  · exact plain.unknownField rfl (by decide) hop

theorem isPlain_connective {op operator neutral : String} {level : Precedence}
    (h : connective? op = some (operator, level, neutral)) :
    isPlain [] operator = true ∧ s.IsExpression neutral := by
  unfold connective? at h
  split at h <;> cases h <;> exact ⟨joins_of_chars rfl (by decide), .literal rfl (by decide)⟩

theorem tidy_logicOperation (plain : n.Plain s.texts) :
    (logicOperation n).Honours s.tidy s.IsCode := by
  refine .andThen (tidy_requiredField plain rfl (by decide)) fun op hop => ?_
  split
  · exact plain.unknownField rfl (by decide) hop
  · next operator level neutral h =>
      obtain ⟨hoperator, hneutral⟩ := isPlain_connective (s := s) h
      refine .andThen (.value? _ _) fun a ha => .andThen (.value? _ _) fun b hb => ?_
      have operand (x : Option String) (hx : ∀ text ∈ x, s.IsExpression text) :
          s.IsExpression (x.getD neutral) := by
        cases x with
        | none => exact hneutral
        | some text => exact hx text rfl
      split
      · exact .literal rfl (by decide)
      · constructor
        · simp
        · simp (disch := (apply joins_of_chars rfl; decide)) [(operand a ha).mentions, (operand b hb).mentions,
            MentionsOnly.literal hoperator]

theorem tidy_logicNegate : logicNegate.Honours s.tidy s.IsCode := by
  refine .andThen (.valueOr_literal rfl (by decide)) fun operand h => ?_
  constructor
  · simp
  · simp (disch := (apply joins_of_chars rfl; decide)) [h.mentions]

theorem tidy_logicBoolean (plain : n.Plain s.texts) :
    (logicBoolean n).Honours s.tidy s.IsCode := by
  refine .andThen (tidy_requiredField plain rfl (by decide)) fun value h => ?_
  split
  · exact Surface.IsExpression.literal rfl (by decide)
  · exact Surface.IsExpression.literal rfl (by decide)
  · exact plain.unknownField rfl (by decide) h

theorem tidy_logicNull : logicNull.Honours s.tidy s.IsCode :=
  Surface.IsExpression.literal rfl (by decide)

theorem tidy_logicTernary : logicTernary.Honours s.tidy s.IsCode := by
  refine .andThen (.valueOr_literal rfl (by decide)) fun condition hc => ?_
  refine .andThen (.valueOr_literal rfl (by decide)) fun yes hy => ?_
  refine .andThen (.valueOr_literal rfl (by decide)) fun no hn => ?_
  constructor
  · simp
  · simp (disch := (apply joins_of_chars rfl; decide)) [hc.mentions, hy.mentions, hn.mentions]

theorem tidy_falseLiteral : falseLiteral.Honours s.tidy s.IsCode :=
  Surface.IsExpression.literal rfl (by decide)

theorem tidy_remainderIs {number divisor remainder : String} (hn : s.IsExpression number)
    (hd : s.IsExpression divisor) (hr : s.IsExpression remainder) :
    (remainderIs number divisor remainder).Honours s.tidy s.IsCode := by
  constructor
  · simp
  · simp (disch := (apply joins_of_chars rfl; decide)) [hn.mentions, hd.mentions, hr.mentions]

theorem tidy_property (property : Property) : property.test.Honours s.tidy s.IsCode := by
  unfold Property.test
  split
  · refine .andThen (.value? _ _) fun number hn => ?_
    split
    · exact tidy_falseLiteral
    · next number =>
        have number := hn number rfl
        refine .andThen (.requireModule .math) fun _ imported => ?_
        refine .andThen (.helperName .isPrime imported) fun name hname => ?_
        constructor
        · simp
        · simp (disch := (apply joins_of_chars rfl; decide)) [hname.mentions, number.mentions]
  · refine .andThen (.value? _ _) fun number hn => ?_
    split
    · exact tidy_falseLiteral
    · next number =>
        have number := hn number rfl
        split
        · exact tidy_remainderIs number (.literal rfl (by decide)) (.literal rfl (by decide))
        · exact tidy_remainderIs number (.literal rfl (by decide)) (.literal rfl (by decide))
        · exact tidy_remainderIs number (.literal rfl (by decide)) (.literal rfl (by decide))
        · constructor
          · simp
          · simp (disch := (apply joins_of_chars rfl; decide)) [number.mentions]
        · constructor
          · simp
          · simp (disch := (apply joins_of_chars rfl; decide)) [number.mentions]
        · refine .andThen (.value? _ _) fun divisor hd => ?_
          split
          · exact tidy_falseLiteral
          · next divisor =>
              exact tidy_remainderIs number (hd divisor rfl) (.literal rfl (by decide))

theorem tidy_mathNumberProperty (plain : n.Plain s.texts) :
    (mathNumberProperty n).Honours s.tidy s.IsCode := by
  refine .andThen (tidy_requiredField plain rfl (by decide)) fun name h => ?_
  split
  · exact plain.unknownField rfl (by decide) h
  · next property _ => exact tidy_property property

/-! Functions. -/

theorem tidy_functionForm {op : String} {form : FunctionForm} (h : functionForm? op = some form)
    (imported : ∀ m ∈ [Module.math], s.modules m) {argument : String}
    (ha : s.IsExpression argument) :
    s.IsExpression (form.before ++ argument ++ form.after) := by
  unfold functionForm? at h
  split at h <;> cases h
  all_goals
    constructor
    · simp [methodForm, callForm, angleForm, toAngleForm]
    · simp (disch := (apply joins_of_chars rfl; decide)) [methodForm, callForm, angleForm,
        toAngleForm, MentionsOnly.opening_append imported, MentionsOnly.append_ending imported,
        ha.mentions]

theorem tidy_mathSingle (plain : n.Plain s.texts) : (mathSingle n).Honours s.tidy s.IsCode := by
  refine .andThen (tidy_requiredField plain rfl (by decide)) fun op hop => ?_
  split
  · exact tidy_negation
  · split
    · exact plain.unknownField rfl (by decide) hop
    · next form h =>
        refine .andThen (.requireModule .math) fun _ imported => ?_
        refine .andThen (.valueOr_literal rfl (by decide)) fun argument ha => ?_
        exact tidy_functionForm h imported ha

theorem tidy_constant {name code : String} {level : Precedence}
    (h : constant? name = some (code, level)) (imported : ∀ m ∈ [Module.math], s.modules m) :
    s.IsExpression code := by
  unfold constant? at h
  split at h <;> cases h
  all_goals
    constructor
    · decide
    · exact .of_isPlain imported (joins_of_chars rfl (by decide))

theorem tidy_mathConstant (plain : n.Plain s.texts) :
    (mathConstant n).Honours s.tidy s.IsCode := by
  refine .andThen (tidy_requiredField plain rfl (by decide)) fun name hname => ?_
  split
  · exact Surface.IsExpression.literal rfl (by decide)
  · split
    · exact plain.unknownField rfl (by decide) hname
    · next code level h =>
        refine .andThen (.requireModule .math) fun _ imported => ?_
        exact tidy_constant h imported

/-- A call of a function with one argument. -/
theorem isExpression_call {function argument : String} (hf : s.IsExpression function)
    (ha : s.IsExpression argument) : s.IsExpression (function ++ "(" ++ argument ++ ")") := by
  constructor
  · simp
  · simp (disch := (apply joins_of_chars rfl; decide)) [hf.mentions, ha.mentions]

/-- A call of a function with two arguments. -/
theorem isExpression_call₂ {function first second : String} (hf : s.IsExpression function)
    (h₁ : s.IsExpression first) (h₂ : s.IsExpression second) :
    s.IsExpression (function ++ "(" ++ first ++ ", " ++ second ++ ")") := by
  constructor
  · simp
  · simp (disch := (apply joins_of_chars rfl; decide)) [hf.mentions, h₁.mentions, h₂.mentions]

/-- A call of a function with three arguments. -/
theorem isExpression_call₃ {function first second third : String} (hf : s.IsExpression function)
    (h₁ : s.IsExpression first) (h₂ : s.IsExpression second) (h₃ : s.IsExpression third) :
    s.IsExpression (function ++ "(" ++ first ++ ", " ++ second ++ ", " ++ third ++ ")") := by
  constructor
  · simp
  · simp (disch := (apply joins_of_chars rfl; decide)) [hf.mentions, h₁.mentions, h₂.mentions,
      h₃.mentions]

/-- A summary that does not ask for the module has a helper that does not mention it. -/
theorem modules_of_summary {op : String} {h : Helper} {usesModule : Bool}
    (known : summary? op = some (h, usesModule)) :
    h.modules = if usesModule then [.math] else [] := by
  unfold summary? at known
  split at known <;> cases known <;> rfl

theorem tidy_mathOnList (plain : n.Plain s.texts) : (mathOnList n).Honours s.tidy s.IsCode := by
  refine .andThen (tidy_requiredField plain rfl (by decide)) fun op hop => ?_
  split
  · exact plain.unknownField rfl (by decide) hop
  · next h usesModule known =>
      have modules := modules_of_summary known
      refine .andThen (.valueOr_literal rfl (by decide)) fun list hl => ?_
      cases usesModule with
      | true =>
          refine .andThen (.requireModule .math) fun _ imported => ?_
          refine .andThen (.helperName h (modules ▸ imported)) fun name hname => ?_
          exact isExpression_call hname.toIsExpression hl
      | false =>
          refine .andThen (.helperName h (modules ▸ nofun)) fun name hname => ?_
          exact isExpression_call hname.toIsExpression hl

theorem tidy_mathConstrain : mathConstrain.Honours s.tidy s.IsCode := by
  refine .andThen (.requireModule .math) fun _ imported => ?_
  refine .andThen (.valueOr_literal rfl (by decide)) fun value hv => ?_
  refine .andThen (.valueOr_literal rfl (by decide)) fun low hl => ?_
  refine .andThen (.valueOr_literal rfl (by decide)) fun high hh => ?_
  constructor
  · simp
  · simp (disch := (apply joins_of_chars rfl; decide)) [MentionsOnly.opening_append imported,
      hv.mentions, hl.mentions, hh.mentions]

theorem tidy_mathRandomInt : mathRandomInt.Honours s.tidy s.IsCode := by
  refine .andThen (.requireModule .math) fun _ imported => ?_
  refine .andThen (.valueOr_literal rfl (by decide)) fun low hl => ?_
  refine .andThen (.valueOr_literal rfl (by decide)) fun high hh => ?_
  refine .andThen (.helperName .randomInteger imported) fun name hname => ?_
  exact isExpression_call₂ hname.toIsExpression hl hh

theorem tidy_mathRandomFloat : mathRandomFloat.Honours s.tidy s.IsCode := by
  refine .andThen (.requireModule .math) fun _ imported => ?_
  exact ⟨by decide, .of_isPlain imported (joins_of_chars rfl (by decide))⟩

theorem tidy_mathAtan2 : mathAtan2.Honours s.tidy s.IsCode := by
  refine .andThen (.requireModule .math) fun _ imported => ?_
  refine .andThen (.valueOr_literal rfl (by decide)) fun x hx => ?_
  refine .andThen (.valueOr_literal rfl (by decide)) fun y hy => ?_
  constructor
  · simp
  · simp (disch := (apply joins_of_chars rfl; decide)) [MentionsOnly.opening_append imported,
      MentionsOnly.append_ending imported, hx.mentions, hy.mentions]

theorem quote_ne_empty (text : String) : Text.quote text ≠ "" := by
  intro hnil
  have hlist := congrArg String.toList hnil
  simp at hlist

theorem isExpression_quote {text : String} (h : MentionsOnly s.modules .undoubled text) :
    s.IsExpression (Text.quote text) :=
  ⟨quote_ne_empty text, h.quote s.view⟩

theorem tidy_colourPicker (plain : n.Plain s.texts) :
    (colourPicker n).Honours s.tidy s.IsCode := by
  have colour := plain.fieldOr "COLOUR" "#000000" (joins_of_chars rfl (by decide))
  exact isExpression_quote (colour.mono s.allowed)

theorem tidy_colourRandom : colourRandom.Honours s.tidy s.IsCode := by
  refine .andThen (.requireModule .math) fun _ imported => ?_
  refine .andThen (.helperName .randomColour imported) fun name hname => ?_
  constructor
  · simp
  · simp (disch := (apply joins_of_chars rfl; decide)) [hname.mentions]

theorem tidy_colourRgb : colourRgb.Honours s.tidy s.IsCode := by
  refine .andThen (.valueOr_literal rfl (by decide)) fun red hr => ?_
  refine .andThen (.valueOr_literal rfl (by decide)) fun green hg => ?_
  refine .andThen (.valueOr_literal rfl (by decide)) fun blue hb => ?_
  refine .andThen (.requireModule .math) fun _ imported => ?_
  refine .andThen (.helperName .colourFromParts imported) fun name hname => ?_
  exact isExpression_call₃ hname.toIsExpression hr hg hb

theorem tidy_colourBlend : colourBlend.Honours s.tidy s.IsCode := by
  refine .andThen (.valueOr_literal rfl (by decide)) fun first h₁ => ?_
  refine .andThen (.valueOr_literal rfl (by decide)) fun second h₂ => ?_
  refine .andThen (.valueOr_literal rfl (by decide)) fun ratio h₃ => ?_
  refine .andThen (.requireModule .math) fun _ imported => ?_
  refine .andThen (.helperName .blendColours imported) fun name hname => ?_
  exact isExpression_call₃ hname.toIsExpression h₁ h₂ h₃

end Template

end BlockScript
