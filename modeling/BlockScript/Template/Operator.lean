import BlockScript.Options
import BlockScript.Script
import BlockScript.Number.Text

/-! # Operators

Literals, arithmetic, comparisons and logic: the blocks whose code is an expression of operators
and whose operands are put in parentheses by precedence alone. -/

namespace BlockScript.Template
open Script Number

/-- `a op b`, where the right operand has to bind tighter. -/
def binary (operator : String) (level : Precedence) : Script Emitted := do
  let a ← valueOr "A" level "0"
  let b ← valueOr "B" level.tighter "0"
  done (.value (a ++ " " ++ operator ++ " " ++ b) level)

/-- The error for a numeric field that holds no number. -/
def notANumber (n : Node) (raw : String) : GenerateError := .invalidNumber n.id raw

/-- A numeral. The minus sign of a negative one is an operator in front of it. -/
def numeral (x : Binary64) : Emitted :=
  if x = .infinite false then .value "double.infinity" .unaryPostfix
  else if x = .infinite true then .value "-double.infinity" .unaryPrefix
  else if x.isNegative then .value x.scriptText .unaryPrefix
  else .value x.scriptText .atomic

def mathNumber (n : Node) : Script Emitted :=
  let raw := (n.field "NUM").getD "0"
  match readField raw with
  | some x => done (numeral x)
  | none => fail (notANumber n raw)

/-- The sign and the level of an arithmetic operator. -/
def arithmeticOperator? : String → Option (String × Precedence)
  | "ADD" => some ("+", .additive)
  | "MINUS" => some ("-", .additive)
  | "MULTIPLY" => some ("*", .multiplicative)
  | "DIVIDE" => some ("/", .multiplicative)
  | _ => none

def power : Script Emitted := do
  requireModule .math
  let a ← valueOr "A" .anything "0"
  let b ← valueOr "B" .anything "0"
  postfixValue ("Math.pow(" ++ a ++ ", " ++ b ++ ")")

def mathArithmetic (n : Node) : Script Emitted := do
  let op ← n.requiredField "OP"
  match arithmeticOperator? op with
  | some (operator, level) => binary operator level
  | none => if op = "POWER" then power else fail (n.unknownOption "OP" (some op))

def mathModulo : Script Emitted := do
  let a ← valueOr "DIVIDEND" .multiplicative "0"
  let b ← valueOr "DIVISOR" Precedence.multiplicative.tighter "0"
  done (.value (a ++ " % " ++ b) .multiplicative)

/-- A minus sign, kept apart from one that the operand starts with. -/
def minus (operand : String) : String :=
  match operand.toList with
  | '-' :: _ => "- " ++ operand
  | _ => "-" ++ operand

def negation : Script Emitted := do
  let operand ← valueOr "NUM" .unaryPrefix "0"
  done (.value (minus operand) .unaryPrefix)

/-- The sign and the level of a comparison. -/
def comparison? : String → Option (String × Precedence)
  | "EQ" => some ("==", .equality)
  | "NEQ" => some ("!=", .equality)
  | "LT" => some ("<", .relational)
  | "LTE" => some ("<=", .relational)
  | "GT" => some (">", .relational)
  | "GTE" => some (">=", .relational)
  | _ => none

def logicCompare (n : Node) : Script Emitted := do
  let op ← n.requiredField "OP"
  match comparison? op with
  | some (operator, level) => binary operator level
  | none => fail (n.unknownOption "OP" (some op))

/-- The sign, the level and the neutral operand of a connective. -/
def connective? : String → Option (String × Precedence × String)
  | "AND" => some ("&&", .logicalAnd, "true")
  | "OR" => some ("||", .logicalOr, "false")
  | _ => none

/-- A connective is associative, so both operands go in at its own level. -/
def logicOperation (n : Node) : Script Emitted := do
  let op ← n.requiredField "OP"
  match connective? op with
  | none => fail (n.unknownOption "OP" (some op))
  | some (operator, level, neutral) =>
      let a ← value? "A" level
      let b ← value? "B" level
      match a, b with
      | none, none => done (.value "false" .atomic)
      | a, b => done (.value (a.getD neutral ++ " " ++ operator ++ " " ++ b.getD neutral) level)

def logicNegate : Script Emitted := do
  let operand ← valueOr "BOOL" .unaryPrefix "true"
  done (.value ("!" ++ operand) .unaryPrefix)

def logicBoolean (n : Node) : Script Emitted := do
  let value ← n.requiredField "BOOL"
  match value with
  | "TRUE" => done (.value "true" .atomic)
  | "FALSE" => done (.value "false" .atomic)
  | other => fail (n.unknownOption "BOOL" (some other))

def logicNull : Script Emitted := done (.value "null" .atomic)

def logicTernary : Script Emitted := do
  let condition ← valueOr "IF" Precedence.conditional.tighter "false"
  let yes ← valueOr "THEN" .conditional "null"
  let no ← valueOr "ELSE" .conditional "null"
  done (.value (condition ++ " ? " ++ yes ++ " : " ++ no) .conditional)

/-- What a property asks of a number. -/
inductive Property where
  | even | odd | prime | whole | positive | negative | divisible
deriving DecidableEq, Repr

def Property.ofName? : String → Option Property
  | "EVEN" => some .even
  | "ODD" => some .odd
  | "PRIME" => some .prime
  | "WHOLE" => some .whole
  | "POSITIVE" => some .positive
  | "NEGATIVE" => some .negative
  | "DIVISIBLE_BY" => some .divisible
  | _ => none

def falseLiteral : Script Emitted := done (.value "false" .atomic)

/-- `n % d == r`. -/
def remainderIs (number divisor remainder : String) : Script Emitted :=
  done (.value (number ++ " % " ++ divisor ++ " == " ++ remainder) .equality)

/-- The test of a property. A number that is missing has none. -/
def Property.test : Property → Script Emitted
  | prime => do
      match ← value? "NUMBER_TO_CHECK" .anything with
      | none => falseLiteral
      | some number =>
          requireModule .math
          let test ← helperName .isPrime
          postfixValue (test ++ "(" ++ number ++ ")")
  | property => do
      match ← value? "NUMBER_TO_CHECK" .multiplicative with
      | none => falseLiteral
      | some number =>
          match property with
          | even => remainderIs number "2" "0"
          | odd => remainderIs number "2" "1"
          | whole => remainderIs number "1" "0"
          | positive => done (.value (number ++ " > 0") .relational)
          | negative => done (.value (number ++ " < 0") .relational)
          | _ =>
              match ← value? "DIVISOR" Precedence.multiplicative.tighter with
              | none => falseLiteral
              | some divisor => remainderIs number divisor "0"

def mathNumberProperty (n : Node) : Script Emitted := do
  let name ← n.requiredField "PROPERTY"
  match Property.ofName? name with
  | none => fail (n.unknownOption "PROPERTY" (some name))
  | some property => property.test

end BlockScript.Template
