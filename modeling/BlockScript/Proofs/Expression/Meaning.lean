import BlockScript.Proofs.Expression.Grammar
import BlockScript.Proofs.Number.RoundTrip
import BlockScript.Template

/-! # What value blocks denote

The expression that a block of arithmetic or logic stands for, told from the tree of blocks alone:
no code of other blocks, no level and no parenthesis plays a part in it. Only the numeral of a number
is the text that a script writes for it, and that reads back as the number. A child that is missing
gives way to the default of its place. -/

namespace BlockScript

open Number

namespace Expression

def zero : Expression := numeral "0"

/-- A number; a negative one is the negation of its absolute value. -/
def ofNumber (x : Binary64) : Expression :=
  if x.isNegative then prefixed .minus (numeral x.magnitude.scriptText)
  else numeral x.scriptText

/-- The numeral of a number reads back as its absolute value. -/
theorem exists_ofNumber {x : Binary64} (canonical : x.IsCanonical) (finite : x.isFinite = true) :
    ∃ text, ofNumber x = (if x.isNegative then prefixed .minus (numeral text) else numeral text) ∧
      readBinary64 text.toList = some x.magnitude := by
  refine ⟨x.magnitude.scriptText, ?_, Binary64.readBinary64_magnitude canonical⟩
  unfold ofNumber
  split
  · rfl
  · next positive =>
      have unsigned : x.scriptText = x.magnitude.scriptText := by
        rw [Binary64.scriptText_eq_signText finite, Bool.eq_false_iff.mpr positive, signText,
          if_neg Bool.false_ne_true, String.empty_append]
      rw [unsigned]

end Expression

/-- What is asked of a number. -/
inductive Test where
  /-- Is that the remainder by some divisor? -/
  | remainder (divisor rest : String)
  | againstZero (op : Operator)
  | divisible

/-- The form of a block of arithmetic or logic. -/
inductive Form where
  | constant (e : Expression)
  | named (raw : String)
  /-- An operator, and the inputs that hold its operands. -/
  | infixed (op : Operator) (left right : String)
  /-- A connective, and the operand that changes nothing. -/
  | connective (op : Operator) (neutral : Bool)
  | power
  | prefixed (op : PrefixOperator) (input : String) (default : Expression)
  | choice
  | property (test : Test)

namespace Form

def ofTruth? : String → Option Form
  | "TRUE" => some (constant (.truth true))
  | "FALSE" => some (constant (.truth false))
  | _ => none

def ofArithmetic? : String → Option Form
  | "ADD" => some (infixed .plus "A" "B")
  | "MINUS" => some (infixed .minus "A" "B")
  | "MULTIPLY" => some (infixed .times "A" "B")
  | "DIVIDE" => some (infixed .dividedBy "A" "B")
  | "POWER" => some power
  | _ => none

def ofComparison? : String → Option Form
  | "EQ" => some (infixed .equal "A" "B")
  | "NEQ" => some (infixed .unequal "A" "B")
  | "LT" => some (infixed .less "A" "B")
  | "LTE" => some (infixed .lessEqual "A" "B")
  | "GT" => some (infixed .greater "A" "B")
  | "GTE" => some (infixed .greaterEqual "A" "B")
  | _ => none

def ofConnective? : String → Option Form
  | "AND" => some (connective .and true)
  | "OR" => some (connective .or false)
  | _ => none

def ofProperty? : String → Option Form
  | "EVEN" => some (property (.remainder "2" "0"))
  | "ODD" => some (property (.remainder "2" "1"))
  | "WHOLE" => some (property (.remainder "1" "0"))
  | "POSITIVE" => some (property (.againstZero .greater))
  | "NEGATIVE" => some (property (.againstZero .less))
  | "DIVISIBLE_BY" => some (property .divisible)
  | _ => none

/-- A finite number. -/
def ofNumber? (x : Binary64) : Option Form :=
  if x.isFinite then some (constant (.ofNumber x)) else none

/-- The form of a block of some kind; none if it is not of arithmetic or logic, or shows something
that is not among its options. -/
def ofNode? (n : Node) : Kind → Option Form
  | .mathNumber => (readField ((n.field "NUM").getD "0")).bind ofNumber?
  | .variablesGet => some (named (n.fieldText "VAR"))
  | .logicBoolean => (n.field "BOOL").bind ofTruth?
  | .logicNull => some (constant .null)
  | .mathArithmetic => (n.field "OP").bind ofArithmetic?
  | .mathModulo => some (infixed .modulo "DIVIDEND" "DIVISOR")
  | .mathSingle => if n.field "OP" = some "NEG" then some (prefixed .minus "NUM" .zero) else none
  | .mathNumberProperty => (n.field "PROPERTY").bind ofProperty?
  | .logicCompare => (n.field "OP").bind ofComparison?
  | .logicOperation => (n.field "OP").bind ofConnective?
  | .logicNegate => some (prefixed .not "BOOL" (.truth true))
  | .logicTernary => some choice
  | _ => none

end Form

/-- The test of a number. What is divisible by nothing is not divisible. -/
def Test.denote (arg : String → Option Expression) (number : Expression) : Test → Expression
  | remainder divisor rest =>
      .infixed .equal (.infixed .modulo number (.numeral divisor)) (.numeral rest)
  | againstZero op => .infixed op number .zero
  | divisible =>
      match arg "DIVISOR" with
      | none => .truth false
      | some divisor => .infixed .equal (.infixed .modulo number divisor) .zero

/-- The expression of a form, given how variables are named and what its inputs denote. -/
def Form.denote (names : String → String) (arg : String → Option Expression) : Form → Expression
  | constant e => e
  | named raw => .name (names raw)
  | infixed op left right => .infixed op ((arg left).getD .zero) ((arg right).getD .zero)
  | connective op neutral =>
      match arg "A", arg "B" with
      | none, none => .truth false
      | a, b => .infixed op (a.getD (.truth neutral)) (b.getD (.truth neutral))
  | power => .call (.member (.name "Math") "pow") [(arg "A").getD .zero, (arg "B").getD .zero]
  | prefixed op input default => .prefixed op ((arg input).getD default)
  | choice =>
      .choice ((arg "IF").getD (.truth false)) ((arg "THEN").getD .null) ((arg "ELSE").getD .null)
  | property test =>
      match arg "NUMBER_TO_CHECK" with
      | none => .truth false
      | some number => test.denote arg number

def Node.form? (n : Node) : Option Form := (Kind.ofTypeName? n.kindName).bind (Form.ofNode? n)

namespace Block

mutual

/-- Is every block of the tree one of arithmetic or logic? A disabled block may be any. -/
def isExpression : Block → Bool
  | ⟨node, values, _, _⟩ =>
      node.disabled || (node.form?.isSome && inputsAreExpressions values)

def inputsAreExpressions : List (String × Block) → Bool
  | [] => true
  | (_, child) :: rest => isExpression child && inputsAreExpressions rest

end

mutual

/-- The expression that a block denotes; a disabled one denotes none. -/
def meaning (names : String → String) : Block → Option Expression
  | ⟨node, values, _, _⟩ =>
      if node.disabled then none
      else node.form?.map (Form.denote names fun input => (meanings names values input).join)

/-- What the blocks in inputs denote. -/
def meanings (names : String → String) :
    List (String × Block) → String → Option (Option Expression)
  | [], _ => none
  | (key, child) :: rest, input =>
      if key = input then some (meaning names child) else meanings names rest input

end

variable (names : String → String)

theorem isExpression_eq (b : Block) :
    b.isExpression = (b.node.disabled || (b.node.form?.isSome && inputsAreExpressions b.values)) := by
  cases b
  rfl

theorem inputsAreExpressions_iff (values : List (String × Block)) :
    inputsAreExpressions values = true ↔ ∀ input ∈ values, input.2.isExpression = true := by
  induction values with
  | nil => simp [inputsAreExpressions]
  | cons input rest ih => simp [inputsAreExpressions, ih]

/-- What the block in an input denotes, if there is one. -/
def argument (values : List (String × Block)) (input : String) : Option Expression :=
  (Table.get? values input).bind (meaning names)

theorem meanings_eq (values : List (String × Block)) (input : String) :
    (meanings names values input).join = argument names values input := by
  unfold argument
  induction values with
  | nil => rfl
  | cons entry rest ih =>
      simp only [meanings, Table.get?]
      split
      · rfl
      · exact ih

theorem meaning_eq (b : Block) :
    b.meaning names =
      if b.node.disabled then none
      else b.node.form?.map (Form.denote names (argument names b.values)) := by
  obtain ⟨node, values, statements, next⟩ := b
  simp only [meaning, meanings_eq]

end Block

end BlockScript
