import BlockScript.Template.Operator

/-! # Functions

Blocks that call functions of the `Math` module, helpers over lists of numbers, and the helpers
that make colours. -/

namespace BlockScript.Template
open Script

/-- How a function of one argument is written. -/
structure FunctionForm where
  argument : Precedence
  before : String
  after : String
  level : Precedence

/-- A method of the argument. -/
def methodForm (name : String) : FunctionForm :=
  ⟨.unaryPostfix, "", "." ++ name ++ "()", .unaryPostfix⟩

/-- A function of the module. -/
def callForm (name : String) : FunctionForm :=
  ⟨.anything, "Math." ++ name ++ "(", ")", .unaryPostfix⟩

/-- A function of an angle in degrees. -/
def angleForm (name : String) : FunctionForm :=
  ⟨.multiplicative, "Math." ++ name ++ "(", " / 180 * Math.pi)", .unaryPostfix⟩

/-- A function that gives an angle in degrees. -/
def toAngleForm (name : String) : FunctionForm :=
  ⟨.anything, "Math." ++ name ++ "(", ") / Math.pi * 180", .multiplicative⟩

def functionForm? : String → Option FunctionForm
  | "ABS" => some (methodForm "abs")
  | "ROUND" => some (methodForm "round")
  | "ROUNDUP" => some (methodForm "ceil")
  | "ROUNDDOWN" => some (methodForm "floor")
  | "ROOT" => some (callForm "sqrt")
  | "LN" => some (callForm "log")
  | "EXP" => some (callForm "exp")
  | "POW10" => some ⟨.anything, "Math.pow(10,", ")", .unaryPostfix⟩
  | "LOG10" => some ⟨.anything, "Math.log(", ") / Math.log(10)", .multiplicative⟩
  | "SIN" => some (angleForm "sin")
  | "COS" => some (angleForm "cos")
  | "TAN" => some (angleForm "tan")
  | "ASIN" => some (toAngleForm "asin")
  | "ACOS" => some (toAngleForm "acos")
  | "ATAN" => some (toAngleForm "atan")
  | _ => none

/-- A function of one number, or its negation. -/
def mathSingle (n : Node) : Script Emitted := do
  let op ← n.requiredField "OP"
  if op = "NEG" then negation
  else
    match functionForm? op with
    | none => fail (n.unknownOption "OP" (some op))
    | some form =>
        requireModule .math
        let argument ← valueOr "NUM" form.argument "0"
        done (.value (form.before ++ argument ++ form.after) form.level)

/-- A constant of the module. -/
def constant? : String → Option (String × Precedence)
  | "PI" => some ("Math.pi", .unaryPostfix)
  | "E" => some ("Math.e", .unaryPostfix)
  | "GOLDEN_RATIO" => some ("(1 + Math.sqrt(5)) / 2", .multiplicative)
  | "SQRT2" => some ("Math.sqrt2", .unaryPostfix)
  | "SQRT1_2" => some ("Math.sqrt1_2", .unaryPostfix)
  | _ => none

def mathConstant (n : Node) : Script Emitted := do
  let name ← n.requiredField "CONSTANT"
  if name = "INFINITY" then done (.value "double.infinity" .atomic)
  else
    match constant? name with
    | none => fail (n.unknownOption "CONSTANT" (some name))
    | some (code, level) =>
        requireModule .math
        done (.value code level)

/-- The helper that a summary of a list calls, and whether that helper uses the module. -/
def summary? : String → Option (Helper × Bool)
  | "SUM" => some (.sum, false)
  | "MIN" => some (.least, true)
  | "MAX" => some (.greatest, true)
  | "AVERAGE" => some (.mean, false)
  | "MEDIAN" => some (.median, false)
  | "MODE" => some (.modes, true)
  | "STD_DEV" => some (.standardDeviation, true)
  | "RANDOM" => some (.randomElement, true)
  | _ => none

def mathOnList (n : Node) : Script Emitted := do
  let op ← n.requiredField "OP"
  match summary? op with
  | none => fail (n.unknownOption "OP" (some op))
  | some (h, usesModule) =>
      let list ← valueOr "LIST" .anything "[]"
      if usesModule then requireModule .math
      let name ← helperName h
      postfixValue (name ++ "(" ++ list ++ ")")

def mathConstrain : Script Emitted := do
  requireModule .math
  let value ← valueOr "VALUE" .anything "0"
  let low ← valueOr "LOW" .anything "0"
  let high ← valueOr "HIGH" .anything "double.infinity"
  postfixValue ("Math.min(Math.max(" ++ value ++ ", " ++ low ++ "), " ++ high ++ ")")

def mathRandomInt : Script Emitted := do
  requireModule .math
  let low ← valueOr "FROM" .anything "0"
  let high ← valueOr "TO" .anything "0"
  let name ← helperName .randomInteger
  postfixValue (name ++ "(" ++ low ++ ", " ++ high ++ ")")

def mathRandomFloat : Script Emitted := do
  requireModule .math
  postfixValue "new Math.Random().nextDouble()"

def mathAtan2 : Script Emitted := do
  requireModule .math
  let x ← valueOr "X" .anything "0"
  let y ← valueOr "Y" .anything "0"
  done (.value ("Math.atan2(" ++ y ++ ", " ++ x ++ ") / Math.pi * 180") .multiplicative)

def colourPicker (n : Node) : Script Emitted :=
  done (.value (Text.quote ((n.field "COLOUR").getD "#000000")) .atomic)

def colourRandom : Script Emitted := do
  requireModule .math
  let name ← helperName .randomColour
  postfixValue (name ++ "()")

def colourRgb : Script Emitted := do
  let red ← valueOr "RED" .anything "0"
  let green ← valueOr "GREEN" .anything "0"
  let blue ← valueOr "BLUE" .anything "0"
  requireModule .math
  let name ← helperName .colourFromParts
  postfixValue (name ++ "(" ++ red ++ ", " ++ green ++ ", " ++ blue ++ ")")

def colourBlend : Script Emitted := do
  let first ← valueOr "COLOUR1" .anything "'#000000'"
  let second ← valueOr "COLOUR2" .anything "'#000000'"
  let ratio ← valueOr "RATIO" .anything "0.5"
  requireModule .math
  let name ← helperName .blendColours
  postfixValue (name ++ "(" ++ first ++ ", " ++ second ++ ", " ++ ratio ++ ")")

end BlockScript.Template
