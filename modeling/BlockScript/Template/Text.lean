import BlockScript.Options
import BlockScript.Script

/-! # Texts

Literals, joining, case, blanks, search and replacement, and talking to the user. -/

namespace BlockScript.Template
open Script

def textLiteral (n : Node) : Script Emitted :=
  done (.value (Text.quote (n.fieldText "TEXT")) .atomic)

/-- A literal of several lines. A plus sign in the code counts as joining them. -/
def textMultiline (n : Node) : Script Emitted :=
  let code := Text.multilineQuote (n.fieldText "TEXT")
  done (.value code (if '+' ∈ code.toList then .additive else .atomic))

/-- One item is turned into a text; several are joined as a list. -/
def textJoin (n : Node) : Script Emitted :=
  match n.mutation.items with
  | 0 => done (.value "''" .atomic)
  | 1 => do
      let item ← valueOr "ADD0" .unaryPostfix "''"
      postfixValue (item ++ ".toString()")
  | count => do
      let items ← numberedValues "ADD" .anything "''" count
      postfixValue ("[" ++ ",".intercalate items ++ "].join()")

def textAppend (n : Node) : Script Emitted := do
  let target ← variableName (n.fieldText "VAR")
  let text ← valueOr "TEXT" .anything "''"
  done (.statement (target ++ " = [" ++ target ++ ", " ++ text ++ "].join();\n"))

/-- A method of the text in an input. -/
def textMethod (call : String) : Script Emitted := do
  let text ← valueOr "TEXT" .unaryPostfix "''"
  postfixValue (text ++ call)

def textChangeCase (n : Node) : Script Emitted := do
  let letters ← n.requiredField "CASE"
  match letters with
  | "UPPERCASE" => textMethod ".toUpperCase()"
  | "LOWERCASE" => textMethod ".toLowerCase()"
  | "TITLECASE" =>
      let text ← valueOr "TEXT" .anything "''"
      let name ← helperName .titleCase
      postfixValue (name ++ "(" ++ text ++ ")")
  | other => fail (n.unknownOption "CASE" (some other))

def textTrim (n : Node) : Script Emitted := do
  let side ← n.requiredField "MODE"
  match side with
  | "LEFT" => textMethod ".replaceFirst(new RegExp(r'^\\s+'), '')"
  | "RIGHT" => textMethod ".replaceFirst(new RegExp(r'\\s+$'), '')"
  | "BOTH" => textMethod ".trim()"
  | other => fail (n.unknownOption "MODE" (some other))

def textPrint : Script Emitted := do
  let message ← valueOr "TEXT" .anything "''"
  done (.statement ("print(" ++ message ++ ");\n"))

/-- Is the answer of a prompt a number? -/
def asksForNumber (n : Node) : Script Bool :=
  match n.field "TYPE" with
  | none => done false
  | some "TEXT" => done false
  | some "NUMBER" => done true
  | some other => fail (n.unknownOption "TYPE" (some other))

/-- The message of a prompt: a field if there is one, else an input. -/
def promptMessage (n : Node) : Script String :=
  match n.field "TEXT" with
  | some text => done (Text.quote text)
  | none => valueOr "TEXT" .anything "''"

def textPrompt (n : Node) : Script Emitted := do
  let isNumber ← asksForNumber n
  requireModule .html
  let message ← promptMessage n
  let code := "Html.window.prompt(" ++ message ++ ", '')"
  if isNumber then
    requireModule .math
    postfixValue ("Math.parseDouble(" ++ code ++ ")")
  else postfixValue code

def textCount : Script Emitted := do
  let text ← valueOr "TEXT" .anything "''"
  let part ← valueOr "SUB" .anything "''"
  let name ← helperName .countMatches
  postfixValue (name ++ "(" ++ text ++ ", " ++ part ++ ")")

def textReplace : Script Emitted := do
  let text ← valueOr "TEXT" .unaryPostfix "''"
  let old ← valueOr "FROM" .anything "''"
  let new ← valueOr "TO" .anything "''"
  postfixValue (text ++ ".replaceAll(" ++ old ++ ", " ++ new ++ ")")

def textReverse : Script Emitted := do
  let text ← valueOr "TEXT" .unaryPostfix "''"
  done (.value ("new String.fromCharCodes(" ++ text ++ ".runes.toList().reversed)") .unaryPrefix)

end BlockScript.Template
