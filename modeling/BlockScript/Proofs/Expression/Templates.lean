import BlockScript.Proofs.Expression.Meaning
import BlockScript.Proofs.Expression.Printed
import BlockScript.Proofs.Rendering.Ensures

/-! # What templates make of expressions

The script of each block of arithmetic or logic, where the code in its inputs stands for what they
denote: its own code stands for what the block denotes. -/

namespace BlockScript

open Number

theorem Stands.zero {level : Precedence} : Stands "0" level .zero := digit (by simp)

/-- A finite number is written as the expression that it denotes, at its level. -/
theorem exists_numeral {x : Binary64} (finite : x.isFinite = true) :
    ∃ code level, Template.numeral x = .value code level ∧ Stands code level (.ofNumber x) := by
  have hp : x ≠ .infinite false := by
    rintro rfl
    exact absurd finite (by decide)
  have hm : x ≠ .infinite true := by
    rintro rfl
    exact absurd finite (by decide)
  unfold Template.numeral Expression.ofNumber
  rw [if_neg hp, if_neg hm]
  by_cases hn : x.isNegative = true
  · rw [if_pos hn, if_pos hn]
    refine ⟨_, _, rfl, ?_⟩
    have numeral : IsNumeral x.magnitude.scriptText.toList :=
      Binary64.isNumeral_scriptText (Binary64.isFinite_magnitude finite)
        Binary64.isNegative_magnitude
    rw [Binary64.scriptText_of_isNegative finite hn]
    apply Spells.stands
    apply Spells.prefixed .minus ((Spells.numeral numeral).mono (Nat.zero_le _))
    obtain ⟨c, rest, hc, hd⟩ := numeral.exists_cons
    rw [hc]
    rintro ⟨rfl⟩
    exact absurd hd (by decide)
  · rw [if_neg hn, if_neg hn]
    refine ⟨_, _, rfl, ?_⟩
    exact (Spells.numeral (Binary64.isNumeral_scriptText finite (by simpa using hn))).stands

theorem Form.denote_connective {names : String → String} {arg : String → Option Expression}
    {op : Operator} {neutral : Bool} (h : ¬(arg "A" = none ∧ arg "B" = none)) :
    denote names arg (connective op neutral) =
      .infixed op ((arg "A").getD (.truth neutral)) ((arg "B").getD (.truth neutral)) := by
  simp only [denote]
  split
  · next ha hb => exact absurd ⟨ha, hb⟩ h
  · rfl

/-- Are variables given the names by which expressions call them, and may these be names? -/
def Named (names : String → String) (es : List Event) : Prop :=
  ∀ raw given, .name .variableName raw given ∈ es →
    given = names raw ∧ Names.isIdentifier given.toList = true ∧ given ∉ reservedWords

theorem Named.left {names : String → String} {es more : List Event}
    (h : Named names (es ++ more)) : Named names es :=
  fun raw given hm => h raw given (List.mem_append_left _ hm)

theorem Named.right {names : String → String} {es more : List Event}
    (h : Named names (es ++ more)) : Named names more :=
  fun raw given hm => h raw given (List.mem_append_right _ hm)

/-- Does the code in an input stand for what the input denotes? -/
def StandsFor (level : Precedence) : Option String → Option Expression → Prop
  | some code, some e => Stands code level e
  | none, none => True
  | _, _ => False

theorem StandsFor.eq_none_iff {level : Precedence} {code : Option String} {e : Option Expression}
    (h : StandsFor level code e) : code = none ↔ e = none := by
  cases code <;> cases e <;> first | exact h.elim | simp

theorem StandsFor.getD {level : Precedence} {code : Option String} {e : Option Expression}
    {default : String} {d : Expression} (h : StandsFor level code e)
    (hd : Stands default level d) : Stands (code.getD default) level (e.getD d) := by
  cases code <;> cases e <;> first | exact hd | exact h | exact h.elim

/-- Replies where inputs denote expressions. -/
def Replies.ofArguments (names : String → String) (arg : String → Option Expression) : Replies where
  value input level code es := Named names es → StandsFor level code (arg input)
  body _ _ _ := True
  plugged _ _ := True
  mayFail := False

/-- A value with the code of an expression. -/
def Denotes (names : String → String) (e : Expression) (emitted : Emitted) (es : List Event) :
    Prop :=
  ∃ code level, emitted = .value code level ∧ (Named names es → Stands code level e)

namespace Script.Ensures
variable {names : String → String} {arg : String → Option Expression} {e : Expression}
  {Q : Emitted → List Event → Prop}

theorem emits {code : String} {level : Precedence} (h : Stands code level e) :
    (Script.done (.value code level)).Ensures (.ofArguments names arg) (Denotes names e) :=
  ⟨code, level, rfl, fun _ => h⟩

/-- The code of an input, or its default, stands for what the input denotes. -/
theorem valueOr_bind {input default : String} {level : Precedence} {d : Expression}
    {f : String → Script Emitted} (hd : Stands default level d)
    (h : ∀ code es, (Named names es → Stands code level ((arg input).getD d)) →
      (f code).Ensures (.ofArguments names arg) fun a more => Q a (es ++ more)) :
    (valueOr input level default >>= f).Ensures (.ofArguments names arg) Q := by
  intro code es reply
  apply h
  intro named
  exact (reply named).getD hd

theorem value?_bind {input : String} {level : Precedence} {f : Option String → Script Emitted}
    (h : ∀ code es, (Named names es → StandsFor level code (arg input)) →
      (f code).Ensures (.ofArguments names arg) fun a more => Q a (es ++ more)) :
    (value? input level >>= f).Ensures (.ofArguments names arg) Q :=
  fun code es reply => h code es reply

theorem require_bind {m : Module} {f : Unit → Script Emitted}
    (h : (f ()).Ensures (.ofArguments names arg) fun a more => Q a (.require m :: more)) :
    (requireModule m >>= f).Ensures (.ofArguments names arg) Q := h

end Script.Ensures

namespace Template
open Script Script.Ensures

variable {names : String → String} {arg : String → Option Expression}

/-- The word for a truth value. -/
def truthText (value : Bool) : String := if value then "true" else "false"

theorem arithmeticOperator?_of_form {name : String} {form : Form}
    (h : Form.ofArithmetic? name = some form) :
    (∃ op : Operator, form = .infixed op "A" "B" ∧
      arithmeticOperator? name = some (op.sign, op.level)) ∨
    (form = .power ∧ name = "POWER" ∧ arithmeticOperator? name = none) := by
  unfold Form.ofArithmetic? at h
  split at h <;> cases h
  · exact .inl ⟨.plus, rfl, rfl⟩
  · exact .inl ⟨.minus, rfl, rfl⟩
  · exact .inl ⟨.times, rfl, rfl⟩
  · exact .inl ⟨.dividedBy, rfl, rfl⟩
  · exact .inr ⟨rfl, rfl, rfl⟩

theorem comparison?_of_form {name : String} {form : Form}
    (h : Form.ofComparison? name = some form) :
    ∃ op : Operator, form = .infixed op "A" "B" ∧ comparison? name = some (op.sign, op.level) := by
  unfold Form.ofComparison? at h
  split at h <;> cases h
  · exact ⟨.equal, rfl, rfl⟩
  · exact ⟨.unequal, rfl, rfl⟩
  · exact ⟨.less, rfl, rfl⟩
  · exact ⟨.lessEqual, rfl, rfl⟩
  · exact ⟨.greater, rfl, rfl⟩
  · exact ⟨.greaterEqual, rfl, rfl⟩

theorem connective?_of_form {name : String} {form : Form}
    (h : Form.ofConnective? name = some form) :
    ∃ op neutral, form = .connective op neutral ∧ op.isConnective ∧
      connective? name = some (op.sign, op.level, truthText neutral) := by
  unfold Form.ofConnective? at h
  split at h <;> cases h
  · exact ⟨.and, true, rfl, .inl rfl, rfl⟩
  · exact ⟨.or, false, rfl, .inr rfl, rfl⟩

theorem ensures_binary (op : Operator) :
    (binary op.sign op.level).Ensures (.ofArguments names arg)
      (Denotes names (Form.denote names arg (.infixed op "A" "B"))) := by
  apply valueOr_bind Stands.zero
  intro a es ha
  apply valueOr_bind Stands.zero
  intro b es' hb
  refine ⟨_, _, rfl, fun named => ?_⟩
  exact (ha named.left).infixed op (hb named.right.left)

theorem ensures_modulo :
    mathModulo.Ensures (.ofArguments names arg)
      (Denotes names (Form.denote names arg (.infixed .modulo "DIVIDEND" "DIVISOR"))) := by
  apply valueOr_bind Stands.zero
  intro a es ha
  apply valueOr_bind Stands.zero
  intro b es' hb
  refine ⟨_, _, rfl, fun named => ?_⟩
  exact (ha named.left).infixed_text .modulo rfl (hb named.right.left)

theorem ensures_power :
    power.Ensures (.ofArguments names arg) (Denotes names (Form.denote names arg .power)) := by
  apply require_bind
  apply valueOr_bind Stands.zero
  intro a es ha
  apply valueOr_bind Stands.zero
  intro b es' hb
  refine ⟨_, _, rfl, fun named => ?_⟩
  have behind : Named names (es ++ (es' ++ [])) :=
    fun raw given h => named raw given (List.mem_cons_of_mem _ h)
  exact (ha behind.left).power (hb behind.right.left)

theorem ensures_negation :
    negation.Ensures (.ofArguments names arg)
      (Denotes names (Form.denote names arg (.prefixed .minus "NUM" .zero))) := by
  apply valueOr_bind Stands.zero
  intro a es ha
  exact ⟨_, _, rfl, fun named => (ha named.left).minus⟩

theorem ensures_logicNegate :
    logicNegate.Ensures (.ofArguments names arg)
      (Denotes names (Form.denote names arg (.prefixed .not "BOOL" (.truth true)))) := by
  apply valueOr_bind (Stands.truth true)
  intro a es ha
  exact ⟨_, _, rfl, fun named => (ha named.left).not⟩

theorem ensures_logicTernary :
    logicTernary.Ensures (.ofArguments names arg)
      (Denotes names (Form.denote names arg .choice)) := by
  apply valueOr_bind (Stands.truth false)
  intro a es ha
  apply valueOr_bind Stands.null
  intro b es' hb
  apply valueOr_bind Stands.null
  intro c es'' hc
  refine ⟨_, _, rfl, fun named => ?_⟩
  exact (ha named.left).choice (hb named.right.left) (hc named.right.right.left)

/-- With one operand or none, a connective has its neutral operand or is false. -/
theorem ensures_logicOperation {n : Node} {name : String} {form : Form}
    (hn : n.field "OP" = some name) (hf : Form.ofConnective? name = some form) :
    (logicOperation n).Ensures (.ofArguments names arg) (Denotes names (form.denote names arg)) := by
  obtain ⟨op, neutral, rfl, hop, hc⟩ := connective?_of_form hf
  simp only [logicOperation, Node.requiredField, hn, done_bind, hc]
  apply value?_bind
  intro a es ha
  apply value?_bind
  intro b es' hb
  have left (named : Named names (es ++ (es' ++ []))) := ha named.left
  have right (named : Named names (es ++ (es' ++ []))) := hb named.right.left
  -- If there is any operand, there are two: the neutral one takes the place of the other.
  have whole (named : Named names (es ++ (es' ++ []))) (some : ¬(a = none ∧ b = none)) :
      Stands (a.getD (truthText neutral) ++ " " ++ op.sign ++ " " ++ b.getD (truthText neutral))
        op.level (Form.denote names arg (.connective op neutral)) := by
    rw [Form.denote_connective]
    · exact .connective hop ((left named).getD (Stands.truth neutral))
        ((right named).getD (Stands.truth neutral))
    · rwa [← (left named).eq_none_iff, ← (right named).eq_none_iff]
  cases a with
  | some a => exact ⟨_, _, rfl, fun named => whole named (by simp)⟩
  | none =>
      cases b with
      | some b => exact ⟨_, _, rfl, fun named => whole named (by simp)⟩
      | none =>
          refine ⟨_, _, rfl, fun named => ?_⟩
          have hA : arg "A" = none := (left named).eq_none_iff.mp rfl
          have hB : arg "B" = none := (right named).eq_none_iff.mp rfl
          rw [Form.denote, hA, hB]
          exact Stands.truth false

/-- A test of a number, where a number that is missing fails it. -/
theorem ensures_property {test : Test} {level : Precedence} {f : Option String → Script Emitted}
    (missing : f none = falseLiteral)
    (filled : ∀ code es number, (Named names es → Stands code level number) →
      (f (some code)).Ensures (.ofArguments names arg) fun a more =>
        Denotes names (test.denote arg number) a (es ++ more)) :
    (value? "NUMBER_TO_CHECK" level >>= f).Ensures (.ofArguments names arg)
      (Denotes names (Form.denote names arg (.property test))) := by
  apply value?_bind
  intro code es h
  cases code with
  | none =>
      rw [missing]
      refine ⟨_, _, rfl, fun named => ?_⟩
      have hA : arg "NUMBER_TO_CHECK" = none := (h named.left).eq_none_iff.mp rfl
      rw [Form.denote, hA]
      exact Stands.truth false
  | some code =>
      cases hA : arg "NUMBER_TO_CHECK" with
      | some number =>
          have denoted : Form.denote names arg (.property test) = test.denote arg number := by
            rw [Form.denote, hA]
          rw [denoted]
          apply filled
          intro named
          have stands := h named
          rwa [hA] at stands
      | none =>
          -- There is no code where the input denotes nothing.
          have absent (named : Named names es) : False := by
            have stands := h named
            rwa [hA] at stands
          refine (filled code es .null fun named => (absent named).elim).mono ?_
          rintro a more ⟨text, level, rfl, -⟩
          exact ⟨text, level, rfl, fun named => (absent named.left).elim⟩

theorem stands_remainder {number divisor rest : String} {x y z : Expression}
    (hn : Stands number .multiplicative x)
    (hd : Stands divisor Precedence.multiplicative.tighter y)
    (hr : Stands rest Precedence.equality.tighter z) :
    Stands (number ++ " % " ++ divisor ++ " == " ++ rest) .equality
      (.infixed .equal (.infixed .modulo x y) z) := by
  have remainder := hn.infixed_text .modulo rfl hd
  exact (remainder.mono (by decide)).infixed_text .equal rfl hr

theorem ensures_remainder {divisor rest : String} (hd : divisor ∈ ["0", "1", "2"])
    (hr : rest ∈ ["0", "1", "2"]) :
    (value? "NUMBER_TO_CHECK" .multiplicative >>= fun
      | none => falseLiteral
      | some number => remainderIs number divisor rest).Ensures (.ofArguments names arg)
      (Denotes names (Form.denote names arg (.property (.remainder divisor rest)))) := by
  apply ensures_property rfl
  intro code es number h
  refine ⟨_, _, rfl, fun named => ?_⟩
  exact stands_remainder (h named.left) (Stands.digit hd) (Stands.digit hr)

theorem ensures_againstZero (op : Operator) (hl : op.level = .relational) {text : String}
    (ht : text = " " ++ op.sign ++ " " ++ "0") :
    (value? "NUMBER_TO_CHECK" .multiplicative >>= fun
      | none => falseLiteral
      | some number => done (Emitted.value (number ++ text) .relational)).Ensures
      (.ofArguments names arg)
      (Denotes names (Form.denote names arg (.property (.againstZero op)))) := by
  apply ensures_property rfl
  intro code es number h
  refine ⟨_, _, rfl, fun named => ?_⟩
  have left : Stands code op.level number := (h named.left).mono (by rw [hl]; decide)
  have whole := left.infixed op Stands.zero
  rw [hl] at whole
  simpa only [Test.denote, ht, String.append_assoc] using whole

theorem ensures_divisible :
    (value? "NUMBER_TO_CHECK" .multiplicative >>= fun
      | none => falseLiteral
      | some number => value? "DIVISOR" Precedence.multiplicative.tighter >>= fun
          | none => falseLiteral
          | some divisor => remainderIs number divisor "0").Ensures (.ofArguments names arg)
      (Denotes names (Form.denote names arg (.property .divisible))) := by
  apply ensures_property rfl
  intro code es number h
  apply value?_bind
  intro divisor es' h'
  have given (named : Named names (es ++ (es' ++ []))) := h' named.right.left
  cases divisor with
  | none =>
      refine ⟨_, _, rfl, fun named => ?_⟩
      have hD : arg "DIVISOR" = none := (given named).eq_none_iff.mp rfl
      rw [Test.denote, hD]
      exact Stands.truth false
  | some divisor =>
      refine ⟨_, _, rfl, fun named => ?_⟩
      have stands := given named
      cases hD : arg "DIVISOR" with
      | none =>
          rw [hD] at stands
          exact stands.elim
      | some d =>
          rw [hD] at stands
          rw [Test.denote, hD]
          exact stands_remainder (h named.left) stands Stands.zero

/-- All properties but that of being prime. -/
theorem ensures_test {name : String} {form : Form} (h : Form.ofProperty? name = some form) :
    ∃ property, Property.ofName? name = some property ∧
      property.test.Ensures (.ofArguments names arg) (Denotes names (form.denote names arg)) := by
  unfold Form.ofProperty? at h
  split at h <;> cases h
  · exact ⟨.even, rfl, ensures_remainder (by simp) (by simp)⟩
  · exact ⟨.odd, rfl, ensures_remainder (by simp) (by simp)⟩
  · exact ⟨.whole, rfl, ensures_remainder (by simp) (by simp)⟩
  · exact ⟨.positive, rfl, ensures_againstZero .greater rfl rfl⟩
  · exact ⟨.negative, rfl, ensures_againstZero .less rfl rfl⟩
  · exact ⟨.divisible, rfl, ensures_divisible⟩

theorem ensures_logicBoolean {n : Node} {name : String} {form : Form}
    (hn : n.field "BOOL" = some name) (hf : Form.ofTruth? name = some form) :
    (logicBoolean n).Ensures (.ofArguments names arg) (Denotes names (form.denote names arg)) := by
  unfold Form.ofTruth? at hf
  split at hf <;> cases hf <;> simp only [logicBoolean, Node.requiredField, hn, done_bind]
  · exact emits (Stands.truth true)
  · exact emits (Stands.truth false)

theorem ensures_mathArithmetic {n : Node} {name : String} {form : Form}
    (hn : n.field "OP" = some name) (hf : Form.ofArithmetic? name = some form) :
    (mathArithmetic n).Ensures (.ofArguments names arg)
      (Denotes names (form.denote names arg)) := by
  simp only [mathArithmetic, Node.requiredField, hn, done_bind]
  rcases arithmeticOperator?_of_form hf with ⟨op, rfl, ho⟩ | ⟨rfl, hp, ho⟩
  · simp only [ho]
    exact ensures_binary op
  · simp only [hp, if_true]
    exact ensures_power

theorem ensures_logicCompare {n : Node} {name : String} {form : Form}
    (hn : n.field "OP" = some name) (hf : Form.ofComparison? name = some form) :
    (logicCompare n).Ensures (.ofArguments names arg) (Denotes names (form.denote names arg)) := by
  obtain ⟨op, rfl, ho⟩ := comparison?_of_form hf
  simp only [logicCompare, Node.requiredField, hn, done_bind, ho]
  exact ensures_binary op

theorem ensures_mathNumberProperty {n : Node} {name : String} {form : Form}
    (hn : n.field "PROPERTY" = some name) (hf : Form.ofProperty? name = some form) :
    (mathNumberProperty n).Ensures (.ofArguments names arg)
      (Denotes names (form.denote names arg)) := by
  obtain ⟨property, hp, ensures⟩ := ensures_test hf
  simp only [mathNumberProperty, Node.requiredField, hn, done_bind, hp]
  exact ensures

theorem ensures_mathNumber {n : Node} {x : Binary64} {form : Form}
    (hn : readField ((n.field "NUM").getD "0") = some x) (hf : Form.ofNumber? x = some form) :
    (mathNumber n).Ensures (.ofArguments names arg) (Denotes names (form.denote names arg)) := by
  obtain ⟨finite, rfl⟩ : x.isFinite = true ∧ Form.constant (.ofNumber x) = form := by
    simpa [Form.ofNumber?] using hf
  obtain ⟨code, level, he, hs⟩ := exists_numeral finite
  simp only [mathNumber, hn, he]
  exact emits hs

/-- A variable stands for its name. -/
theorem ensures_variablesGet (n : Node) :
    (variablesGet n).Ensures (.ofArguments names arg)
      (Denotes names (Form.denote names arg (.named (n.fieldText "VAR")))) := by
  intro given
  refine ⟨given, .atomic, rfl, fun named => ?_⟩
  obtain ⟨rfl, spelled, free⟩ := named _ given List.mem_cons_self
  exact Stands.name spelled free

theorem ensures_mathSingle {n : Node} (hn : n.field "OP" = some "NEG") :
    (mathSingle n).Ensures (.ofArguments names arg)
      (Denotes names (Form.denote names arg (.prefixed .minus "NUM" .zero))) := by
  simp only [mathSingle, Node.requiredField, hn, done_bind, if_true]
  exact ensures_negation

end Template

/-- The script of a block of arithmetic or logic makes the expression that the block denotes. -/
theorem Kind.ensures_form {names : String → String} {arg : String → Option Expression}
    {kind : Kind} {n : Node} {form : Form} (h : Form.ofNode? n kind = some form) (o : Options) :
    (kind.script o n).Ensures (.ofArguments names arg) (Denotes names (form.denote names arg)) := by
  open Template in
  cases kind with
  | mathNumber =>
      obtain ⟨x, hx, hf⟩ := Option.bind_eq_some_iff.mp h
      exact ensures_mathNumber hx hf
  | variablesGet =>
      obtain rfl := Option.some.inj h
      exact ensures_variablesGet n
  | logicBoolean =>
      obtain ⟨name, hn, hf⟩ := Option.bind_eq_some_iff.mp h
      exact ensures_logicBoolean hn hf
  | logicNull =>
      obtain rfl := Option.some.inj h
      exact Script.Ensures.emits Stands.null
  | mathArithmetic =>
      obtain ⟨name, hn, hf⟩ := Option.bind_eq_some_iff.mp h
      exact ensures_mathArithmetic hn hf
  | mathModulo =>
      obtain rfl := Option.some.inj h
      exact ensures_modulo
  | mathSingle =>
      obtain ⟨hn, hf⟩ := Option.ite_none_right_eq_some.mp h
      obtain rfl := Option.some.inj hf
      exact ensures_mathSingle hn
  | mathNumberProperty =>
      obtain ⟨name, hn, hf⟩ := Option.bind_eq_some_iff.mp h
      exact ensures_mathNumberProperty hn hf
  | logicCompare =>
      obtain ⟨name, hn, hf⟩ := Option.bind_eq_some_iff.mp h
      exact ensures_logicCompare hn hf
  | logicOperation =>
      obtain ⟨name, hn, hf⟩ := Option.bind_eq_some_iff.mp h
      exact ensures_logicOperation hn hf
  | logicNegate =>
      obtain rfl := Option.some.inj h
      exact ensures_logicNegate
  | logicTernary =>
      obtain rfl := Option.some.inj h
      exact ensures_logicTernary
  | _ => cases h

end BlockScript
