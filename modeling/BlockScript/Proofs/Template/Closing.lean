import BlockScript.Proofs.Expression.Numeral
import BlockScript.Proofs.Rendering.Contract
import BlockScript.Proofs.Template.Printing
import BlockScript.Proofs.Text.Nesting
import BlockScript.Template.Function

/-! # Closed code

If the code that is plugged into a block is closed, so is the code of the block: names and literals
open nothing, and a template closes what it opens. -/

namespace BlockScript

open Text (Walks Spot walk isOrdinary isOrdinary_of)
open Template Script Names Number

/-- The contract of closed code. -/
def closing : Contract where
  value _ code := Text.IsClosed code
  body _ := True
  remarks _ := True
  relies _ := True
  owes _ := True
  error _ := True

/-- A block leaves closed code, if it leaves a value. -/
def Emitted.IsClosed : Emitted → Prop
  | .value code _ => Text.IsClosed code
  | _ => True

/-! ### Names and numerals -/

theorem isClosed_of_isIdentifier {name : String} (h : isIdentifier name.toList = true) :
    Text.IsClosed name :=
  .of_isOrdinary fun c hc =>
    isOrdinary_of (p := isNameChar) rfl (((isIdentifier_iff _).mp h).2 c hc)

theorem isOrdinary_of_isAsciiDigit {c : Char} (h : Text.isAsciiDigit c = true) :
    isOrdinary c = true :=
  isOrdinary_of (p := Text.isAsciiDigit) rfl h

theorem isClosed_of_isNumeral {text : String} (h : IsNumeral text.toList) : Text.IsClosed text := by
  refine .of_isOrdinary fun c hc => ?_
  obtain ⟨whole, fraction, -, digits, chars⟩ := h
  have digit (d : Char) (hd : d ∈ whole ++ fraction) : isOrdinary d = true :=
    isOrdinary_of_isAsciiDigit (digits d hd)
  rcases chars with chars | ⟨-, chars⟩
  · exact digit c (List.mem_append_left _ (chars ▸ hc))
  · rw [chars, List.mem_append, List.mem_cons] at hc
    rcases hc with hc | rfl | hc
    · exact digit c (List.mem_append_left _ hc)
    · decide
    · exact digit c (List.mem_append_right _ hc)

theorem isClosed_toString (n : Nat) : Text.IsClosed (toString n) :=
  .of_isOrdinary fun _ hc => isOrdinary_of_isAsciiDigit (isAsciiDigit_of_mem_toString n hc)

theorem isClosed_toString_int (i : Int) : Text.IsClosed (toString i) := by
  cases i with
  | ofNat n => exact isClosed_toString n
  | negSucc n => exact .append (.literal rfl fun _ => rfl) (isClosed_toString (n + 1))

theorem isClosed_signText (negative : Bool) : Text.IsClosed (signText negative) := by
  cases negative <;> exact .literal rfl fun _ => rfl

theorem isClosed_scriptText (x : Binary64) : Text.IsClosed x.scriptText := by
  cases x with
  | nan => exact .literal rfl fun _ => rfl
  | infinite negative => exact .append (isClosed_signText negative) (.literal rfl fun _ => rfl)
  | finite negative m e =>
      cases hn : (Binary64.finite negative m e).isNegative with
      | false => exact isClosed_of_isNumeral (Binary64.isNumeral_scriptText rfl hn)
      | true =>
          have magnitude : IsNumeral (Binary64.finite negative m e).magnitude.scriptText.toList :=
            Binary64.isNumeral_scriptText rfl Binary64.isNegative_magnitude
          rw [Binary64.scriptText_of_isNegative rfl hn]
          exact .append (.literal rfl fun _ => rfl) (isClosed_of_isNumeral magnitude)

theorem isClosed_oneDecimal (x : Binary64) : Text.IsClosed x.oneDecimal := by
  cases x with
  | nan => exact .literal rfl fun _ => rfl
  | infinite negative => exact .append (isClosed_signText negative) (.literal rfl fun _ => rfl)
  | finite negative m e =>
      exact fun depth => ((((isClosed_signText negative) depth).code (isClosed_toString _)).text rfl
        rfl).code (isClosed_toString _)

theorem isClosed_wrap {code : String} (h : Text.IsClosed code) (inner required : Precedence) :
    Text.IsClosed (Precedence.wrap code inner required) := by
  unfold Precedence.wrap
  split
  · exact fun _ => ((Walks.start rfl rfl).code h).text rfl rfl
  · exact h

/-! ### Requests -/

namespace Script.Honours
variable {α : Type} {Q : α → Prop}

/-- Nothing is owed, so what a script ensures, whatever the replies are, is all that it takes. -/
theorem of_ensures {script : Script α} (h : script.Ensures .any fun a _ => Q a) :
    script.Honours closing Q := by
  induction script with
  | done a => exact h
  | fail error => exact trivial
  | value input level next ih => exact fun code _ => ih code (h code [] trivial)
  | body input next ih => exact fun code _ => ih code (h.2 code [] trivial)
  | hasBody input next ih => exact fun answer => ih answer (h answer trivial)
  | remarks next ih => exact fun text _ => ih text (h text)
  | name category raw next ih => exact fun given _ => ⟨trivial, fun _ => ih given (h given)⟩
  | temporary base next ih => exact fun given _ => ⟨trivial, fun _ => ih given (h given)⟩
  | helper helper next ih => exact fun given _ => ⟨trivial, fun _ => ih given (h given)⟩
  | require m next ih => exact ⟨trivial, fun _ => ih h⟩
  | define key code next ih => exact ⟨trivial, fun _ => ih h⟩
  | clearWidgets next ih => exact ⟨trivial, fun _ => ih h⟩
  | addWidget widget code next ih => exact ⟨trivial, fun _ => ih h⟩
  | widgets next ih => exact fun made _ => ih made (h made)

/-- Every script keeps the contract, with whatever result. -/
theorem any (script : Script α) : script.Honours closing fun _ => True :=
  of_ensures (.trivial trivial script)

/-- A script whose answer does not matter to the one behind it. -/
theorem anyThen {β : Type} {script : Script β} {f : β → Script α}
    (h : ∀ b, (f b).Honours closing Q) : (script >>= f).Honours closing Q :=
  .andThen (.any script) fun b _ => h b

theorem closedVariable (raw : String) : (Script.variableName raw).Honours closing Text.IsClosed :=
  fun _ made => ⟨trivial, fun _ => isClosed_of_isIdentifier made.isIdentifier⟩

theorem closedProcedure (raw : String) :
    (Script.procedureName raw).Honours closing (IsMadeOf raw) :=
  fun _ made => ⟨trivial, fun _ => made⟩

theorem closedTemporary (base : String) :
    (Script.temporaryName base).Honours closing Text.IsClosed :=
  fun _ made => ⟨trivial, fun _ => isClosed_of_isIdentifier made.isIdentifier⟩

theorem closedHelper (h : Helper) : (Script.helperName h).Honours closing Text.IsClosed :=
  fun _ made => ⟨trivial, fun _ => isClosed_of_isIdentifier made.isIdentifier⟩

theorem closedValue? (input : String) (level : Precedence) :
    (Script.value? input level).Honours closing fun code => ∀ text ∈ code, Text.IsClosed text :=
  fun _ h => h

/-- The code in a value input, or a default that is closed. -/
theorem closedValue {input : String} {level : Precedence} {default : String} {cs : List Char}
    (literal : default = String.ofList cs)
    (h : ∀ depth, walk (Spot.code depth) cs = some (Spot.code depth)) :
    (Script.valueOr input level default).Honours closing Text.IsClosed :=
  valueOr (c := closing) (.literal literal h)

theorem closedValues {base : String} {level : Precedence} {default : String} {count : Nat}
    {cs : List Char} (literal : default = String.ofList cs)
    (h : ∀ depth, walk (Spot.code depth) cs = some (Spot.code depth)) :
    (Script.numberedValues base level default count).Honours closing fun codes =>
      ∀ code ∈ codes, Text.IsClosed code :=
  mapM_all fun _ _ => closedValue literal h

end Script.Honours

namespace Template

variable {o : Options} {n : Node}

/-! ### Operators -/

/-- The operands of an operator that is closed with the blank behind it. -/
theorem isClosed_binary {operator a b : String} (h : Text.IsClosed (operator ++ " "))
    (ha : Text.IsClosed a) (hb : Text.IsClosed b) :
    Text.IsClosed (a ++ " " ++ operator ++ " " ++ b) := by
  have code : a ++ " " ++ operator ++ " " ++ b = a ++ " " ++ (operator ++ " ") ++ b := by
    simp only [String.append_assoc]
  exact code ▸ fun depth => (((ha depth).text rfl rfl).code h).code hb

theorem closes_binary {operator : String} (h : Text.IsClosed (operator ++ " "))
    (level : Precedence) : (binary operator level).Honours closing Emitted.IsClosed := by
  refine .andThen (.closedValue rfl fun _ => rfl) fun a ha => ?_
  exact .andThen (.closedValue rfl fun _ => rfl) fun b hb => isClosed_binary h ha hb

theorem closes_mathNumber : (mathNumber n).Honours closing Emitted.IsClosed := by
  unfold mathNumber
  dsimp only
  split
  · next x _ =>
      have code : (numeral x).IsClosed := by
        unfold numeral
        split
        · exact .literal rfl fun _ => rfl
        · split
          · exact .literal rfl fun _ => rfl
          · split <;> exact isClosed_scriptText x
      exact code
  · exact trivial

theorem closes_power : power.Honours closing Emitted.IsClosed := by
  refine .anyThen fun _ => ?_
  refine .andThen (.closedValue rfl fun _ => rfl) fun a ha => ?_
  refine .andThen (.closedValue rfl fun _ => rfl) fun b hb => ?_
  exact fun _ => ((((Walks.start rfl rfl).code ha).text rfl rfl).code hb).text rfl rfl

theorem isClosed_arithmeticOperator {op operator : String} {level : Precedence}
    (h : arithmeticOperator? op = some (operator, level)) : Text.IsClosed (operator ++ " ") := by
  unfold arithmeticOperator? at h
  split at h <;> cases h <;> exact fun _ => (Walks.start rfl rfl).text rfl rfl

theorem closes_mathArithmetic : (mathArithmetic n).Honours closing Emitted.IsClosed := by
  refine .anyThen fun op => ?_
  split
  · next operator level h => exact closes_binary (isClosed_arithmeticOperator h) level
  · split
    · exact closes_power
    · exact trivial

theorem closes_mathModulo : mathModulo.Honours closing Emitted.IsClosed := by
  refine .andThen (.closedValue rfl fun _ => rfl) fun a ha => ?_
  refine .andThen (.closedValue rfl fun _ => rfl) fun b hb => ?_
  exact fun depth => ((ha depth).text rfl rfl).code hb

theorem closes_negation : negation.Honours closing Emitted.IsClosed := by
  refine .andThen (.closedValue rfl fun _ => rfl) fun operand h => ?_
  have code : Text.IsClosed (minus operand) := by
    unfold minus
    split <;> exact fun _ => (Walks.start rfl rfl).code h
  exact code

theorem isClosed_comparison {op operator : String} {level : Precedence}
    (h : comparison? op = some (operator, level)) : Text.IsClosed (operator ++ " ") := by
  unfold comparison? at h
  split at h <;> cases h <;> exact fun _ => (Walks.start rfl rfl).text rfl rfl

theorem closes_logicCompare : (logicCompare n).Honours closing Emitted.IsClosed := by
  refine .anyThen fun op => ?_
  split
  · next operator level h => exact closes_binary (isClosed_comparison h) level
  · exact trivial

theorem isClosed_connective {op operator neutral : String} {level : Precedence}
    (h : connective? op = some (operator, level, neutral)) :
    Text.IsClosed (operator ++ " ") ∧ Text.IsClosed neutral := by
  unfold connective? at h
  split at h <;> cases h <;>
    exact ⟨fun _ => (Walks.start rfl rfl).text rfl rfl, .literal rfl fun _ => rfl⟩

theorem closes_logicOperation : (logicOperation n).Honours closing Emitted.IsClosed := by
  refine .anyThen fun op => ?_
  split
  · exact trivial
  · next operator level neutral h =>
      obtain ⟨hoperator, hneutral⟩ := isClosed_connective h
      refine .andThen (.closedValue? _ _) fun a ha => .andThen (.closedValue? _ _) fun b hb => ?_
      have operand (x : Option String) (hx : ∀ text ∈ x, Text.IsClosed text) :
          Text.IsClosed (x.getD neutral) := by
        cases x with
        | none => exact hneutral
        | some text => exact hx text rfl
      split
      · exact .literal rfl fun _ => rfl
      · exact isClosed_binary hoperator (operand a ha) (operand b hb)

theorem closes_logicNegate : logicNegate.Honours closing Emitted.IsClosed :=
  .andThen (.closedValue rfl fun _ => rfl) fun _ h _ => (Walks.start rfl rfl).code h

theorem closes_logicBoolean : (logicBoolean n).Honours closing Emitted.IsClosed := by
  refine .anyThen fun value => ?_
  split
  · exact Text.IsClosed.literal rfl fun _ => rfl
  · exact Text.IsClosed.literal rfl fun _ => rfl
  · exact trivial

theorem closes_logicNull : logicNull.Honours closing Emitted.IsClosed :=
  Text.IsClosed.literal rfl fun _ => rfl

theorem closes_logicTernary : logicTernary.Honours closing Emitted.IsClosed := by
  refine .andThen (.closedValue rfl fun _ => rfl) fun condition hc => ?_
  refine .andThen (.closedValue rfl fun _ => rfl) fun yes hy => ?_
  refine .andThen (.closedValue rfl fun _ => rfl) fun no hn => ?_
  exact fun depth => ((((hc depth).text rfl rfl).code hy).text rfl rfl).code hn

theorem closes_remainderIs {number divisor remainder : String} (hn : Text.IsClosed number)
    (hd : Text.IsClosed divisor) (hr : Text.IsClosed remainder) :
    (remainderIs number divisor remainder).Honours closing Emitted.IsClosed :=
  fun depth => ((((hn depth).text rfl rfl).code hd).text rfl rfl).code hr

/-- A call of a function with one argument. -/
theorem isClosed_call {function a : String} (hf : Text.IsClosed function)
    (ha : Text.IsClosed a) : Text.IsClosed (function ++ "(" ++ a ++ ")") :=
  fun depth => (((hf depth).text rfl rfl).code ha).text rfl rfl

/-- A call of a function with two arguments. -/
theorem isClosed_call₂ {function a b : String} (hf : Text.IsClosed function)
    (ha : Text.IsClosed a) (hb : Text.IsClosed b) :
    Text.IsClosed (function ++ "(" ++ a ++ ", " ++ b ++ ")") :=
  fun depth => (((((hf depth).text rfl rfl).code ha).text rfl rfl).code hb).text rfl rfl

/-- A call of a function with three arguments. -/
theorem isClosed_call₃ {function a b c : String} (hf : Text.IsClosed function)
    (ha : Text.IsClosed a) (hb : Text.IsClosed b) (hc : Text.IsClosed c) :
    Text.IsClosed (function ++ "(" ++ a ++ ", " ++ b ++ ", " ++ c ++ ")") :=
  fun depth => (((((((hf depth).text rfl rfl).code ha).text rfl rfl).code hb).text rfl rfl).code
    hc).text rfl rfl

/-- A call of a function with any number of arguments. -/
theorem isClosed_callAll {function : String} {arguments : List String}
    (hf : Text.IsClosed function) (ha : ∀ a ∈ arguments, Text.IsClosed a) :
    Text.IsClosed (function ++ "(" ++ ", ".intercalate arguments ++ ")") :=
  fun depth => (((hf depth).text rfl rfl).append
    (.intercalate (.start rfl rfl) fun a h => ha a h (depth + 1))).text rfl rfl

/-- Closed code in brackets, with something behind it. -/
theorem isClosed_bracketed {separator after : String} {codes : List String} {cs ds : List Char}
    (literal : separator = String.ofList cs)
    (hs : ∀ depth, walk (Spot.code (depth + 1)) cs = some (Spot.code (depth + 1)))
    (literal' : after = String.ofList ds)
    (ha : ∀ depth, walk (Spot.code (depth + 1)) ds = some (Spot.code depth))
    (h : ∀ code ∈ codes, Text.IsClosed code) :
    Text.IsClosed ("[" ++ separator.intercalate codes ++ after) :=
  fun depth => ((Walks.start rfl rfl).append (.intercalate (.start literal (hs depth))
    fun code hc => h code hc (depth + 1))).text literal' (ha depth)

theorem closes_property (property : Property) :
    property.test.Honours closing Emitted.IsClosed := by
  have false : falseLiteral.Honours closing Emitted.IsClosed :=
    Text.IsClosed.literal rfl fun _ => rfl
  unfold Property.test
  split
  · refine .andThen (.closedValue? _ _) fun number hn => ?_
    split
    · exact false
    · next number =>
        refine .anyThen fun _ => .andThen (.closedHelper _) fun name hname => ?_
        exact isClosed_call hname (hn number rfl)
  · refine .andThen (.closedValue? _ _) fun number hn => ?_
    split
    · exact false
    · next number =>
        have number := hn number rfl
        split
        · exact closes_remainderIs number (.literal rfl fun _ => rfl) (.literal rfl fun _ => rfl)
        · exact closes_remainderIs number (.literal rfl fun _ => rfl) (.literal rfl fun _ => rfl)
        · exact closes_remainderIs number (.literal rfl fun _ => rfl) (.literal rfl fun _ => rfl)
        · exact fun depth => (number depth).text rfl rfl
        · exact fun depth => (number depth).text rfl rfl
        · refine .andThen (.closedValue? _ _) fun divisor hd => ?_
          split
          · exact false
          · next divisor =>
              exact closes_remainderIs number (hd divisor rfl) (.literal rfl fun _ => rfl)

theorem closes_mathNumberProperty : (mathNumberProperty n).Honours closing Emitted.IsClosed := by
  refine .anyThen fun name => ?_
  split
  · exact trivial
  · next property _ => exact closes_property property

/-! ### Functions -/

/-- A form closes what it opens around its argument. -/
theorem isClosed_functionForm {op : String} {form : FunctionForm}
    (h : functionForm? op = some form) {argument : String} (ha : Text.IsClosed argument) :
    Text.IsClosed (form.before ++ argument ++ form.after) := by
  have method {name : String} (hn : Text.IsClosed name) :
      Text.IsClosed ((methodForm name).before ++ argument ++ (methodForm name).after) :=
    fun _ => ((Walks.start rfl rfl).code ha).append (((Walks.start rfl rfl).code hn).text rfl rfl)
  have call {name : String} (hn : Text.IsClosed name) :
      Text.IsClosed ((callForm name).before ++ argument ++ (callForm name).after) :=
    fun _ => ((((Walks.start rfl rfl).code hn).text rfl rfl).code ha).text rfl rfl
  have angle {name : String} (hn : Text.IsClosed name) :
      Text.IsClosed ((angleForm name).before ++ argument ++ (angleForm name).after) :=
    fun _ => ((((Walks.start rfl rfl).code hn).text rfl rfl).code ha).text rfl rfl
  have toAngle {name : String} (hn : Text.IsClosed name) :
      Text.IsClosed ((toAngleForm name).before ++ argument ++ (toAngleForm name).after) :=
    fun _ => ((((Walks.start rfl rfl).code hn).text rfl rfl).code ha).text rfl rfl
  unfold functionForm? at h
  split at h <;> cases h
  · exact method (.literal rfl fun _ => rfl)
  · exact method (.literal rfl fun _ => rfl)
  · exact method (.literal rfl fun _ => rfl)
  · exact method (.literal rfl fun _ => rfl)
  · exact call (.literal rfl fun _ => rfl)
  · exact call (.literal rfl fun _ => rfl)
  · exact call (.literal rfl fun _ => rfl)
  · exact fun _ => ((Walks.start rfl rfl).code ha).text rfl rfl
  · exact fun _ => ((Walks.start rfl rfl).code ha).text rfl rfl
  · exact angle (.literal rfl fun _ => rfl)
  · exact angle (.literal rfl fun _ => rfl)
  · exact angle (.literal rfl fun _ => rfl)
  · exact toAngle (.literal rfl fun _ => rfl)
  · exact toAngle (.literal rfl fun _ => rfl)
  · exact toAngle (.literal rfl fun _ => rfl)

theorem closes_mathSingle : (mathSingle n).Honours closing Emitted.IsClosed := by
  refine .anyThen fun op => ?_
  split
  · exact closes_negation
  · split
    · exact trivial
    · next form h =>
        refine .anyThen fun _ => ?_
        exact .andThen (.closedValue rfl fun _ => rfl) fun argument ha =>
          isClosed_functionForm h ha

theorem isClosed_constant {name code : String} {level : Precedence}
    (h : constant? name = some (code, level)) : Text.IsClosed code := by
  unfold constant? at h
  split at h <;> cases h <;> exact .literal rfl fun _ => rfl

theorem closes_mathConstant : (mathConstant n).Honours closing Emitted.IsClosed := by
  refine .anyThen fun name => ?_
  split
  · exact Text.IsClosed.literal rfl fun _ => rfl
  · split
    · exact trivial
    · next code level h => exact .anyThen fun _ => isClosed_constant h

theorem closes_mathOnList : (mathOnList n).Honours closing Emitted.IsClosed := by
  refine .anyThen fun op => ?_
  split
  · exact trivial
  · next h usesModule _ =>
      refine .andThen (.closedValue rfl fun _ => rfl) fun list hl => ?_
      have call : (helperName h >>= fun name => postfixValue (name ++ "(" ++ list ++ ")")).Honours
          closing Emitted.IsClosed :=
        .andThen (.closedHelper h) fun name hname => isClosed_call hname hl
      cases usesModule with
      | true => exact .anyThen fun _ => call
      | false => exact call

theorem closes_mathConstrain : mathConstrain.Honours closing Emitted.IsClosed := by
  refine .anyThen fun _ => ?_
  refine .andThen (.closedValue rfl fun _ => rfl) fun value hv => ?_
  refine .andThen (.closedValue rfl fun _ => rfl) fun low hl => ?_
  refine .andThen (.closedValue rfl fun _ => rfl) fun high hh => ?_
  exact fun _ => ((((((Walks.start rfl rfl).code hv).text rfl rfl).code hl).text rfl rfl).code
    hh).text rfl rfl

theorem closes_mathRandomInt : mathRandomInt.Honours closing Emitted.IsClosed := by
  refine .anyThen fun _ => ?_
  refine .andThen (.closedValue rfl fun _ => rfl) fun low hl => ?_
  refine .andThen (.closedValue rfl fun _ => rfl) fun high hh => ?_
  exact .andThen (.closedHelper _) fun name hname => isClosed_call₂ hname hl hh

theorem closes_mathRandomFloat : mathRandomFloat.Honours closing Emitted.IsClosed :=
  .anyThen fun _ => Text.IsClosed.literal rfl fun _ => rfl

theorem closes_mathAtan2 : mathAtan2.Honours closing Emitted.IsClosed := by
  refine .anyThen fun _ => ?_
  refine .andThen (.closedValue rfl fun _ => rfl) fun x hx => ?_
  refine .andThen (.closedValue rfl fun _ => rfl) fun y hy => ?_
  exact fun _ => ((((Walks.start rfl rfl).code hy).text rfl rfl).code hx).text rfl rfl

theorem closes_colourRandom : colourRandom.Honours closing Emitted.IsClosed :=
  .anyThen fun _ => .andThen (.closedHelper _) fun _ hname depth => (hname depth).text rfl rfl

theorem closes_colourRgb : colourRgb.Honours closing Emitted.IsClosed := by
  refine .andThen (.closedValue rfl fun _ => rfl) fun red hr => ?_
  refine .andThen (.closedValue rfl fun _ => rfl) fun green hg => ?_
  refine .andThen (.closedValue rfl fun _ => rfl) fun blue hb => ?_
  refine .anyThen fun _ => ?_
  exact .andThen (.closedHelper _) fun name hname => isClosed_call₃ hname hr hg hb

theorem closes_colourBlend : colourBlend.Honours closing Emitted.IsClosed := by
  refine .andThen (.closedValue rfl fun _ => rfl) fun first h₁ => ?_
  refine .andThen (.closedValue rfl fun _ => rfl) fun second h₂ => ?_
  refine .andThen (.closedValue rfl fun _ => rfl) fun ratio h₃ => ?_
  refine .anyThen fun _ => ?_
  exact .andThen (.closedHelper _) fun name hname => isClosed_call₃ hname h₁ h₂ h₃

end Template

end BlockScript
