import BlockScript.Options
import BlockScript.Script

/-! # Variables, procedures and handlers

A definition leaves nothing at its place: its code goes to the definitions, under its name
behind a percent sign, which no helper has. -/

namespace BlockScript.Template
open Script

def variablesGet (n : Node) : Script Emitted := do
  let target ← variableName (n.fieldText "VAR")
  done (.value target .atomic)

def variablesSet (n : Node) : Script Emitted := do
  let value ← valueOr "VALUE" .assignment "0"
  let target ← variableName (n.fieldText "VAR")
  done (.statement (target ++ " = " ++ value ++ ";\n"))

/-- Add to a variable; one that holds no number counts as zero. -/
def mathChange (n : Node) : Script Emitted := do
  let delta ← valueOr "DELTA" Precedence.additive.tighter "0"
  let target ← variableName (n.fieldText "VAR")
  done (.statement (target ++ " = (" ++ target ++ " is num ? " ++ target ++ " : 0) + " ++
    delta ++ ";\n"))

/-- The key of a user's definition. -/
def definitionKey (name : String) : String := "%" ++ name

/-- Put code, behind the comments of its block, among the definitions. -/
def defineRoutine (name code : String) : Script Emitted := do
  let comments ← ownRemarks
  defineAs (definitionKey name) (comments ++ code)
  done .nothing

/-- A definition of a procedure. The templates go to the top of its body, and once more in front
of the result if there is something between. -/
def proceduresDefine (o : Options) (n : Node) : Script Emitted := do
  let routine ← procedureName (n.fieldText "NAME")
  let marks := Text.prefixLines
    ((o.prefixFor n.id).getD "" ++ (o.suffixFor n.id).getD "") o.indent
  let trap := Text.prefixLines ((o.trapFor n.id).getD "") o.indent
  let body ← bodyOf "STACK"
  let result ← value? "RETURN" .anything
  let arguments ← n.mutation.args.mapM variableName
  let head := routine ++ "(" ++ ", ".intercalate arguments ++ ") \x7b\n" ++ marks ++ trap ++ body
  match result with
  | none => defineRoutine routine ("void " ++ head ++ "\x7d")
  | some returned =>
      let again := if body = "" then "" else marks
      defineRoutine routine
        ("dynamic " ++ head ++ again ++ o.indent ++ "return " ++ returned ++ ";\n\x7d")

/-- The values of the arguments, one for each name in the mutation. -/
def argumentValues (n : Node) : Script (List String) :=
  numberedValues "ARG" .anything "null" n.mutation.args.length

def procedureCall (n : Node) : Script String := do
  let routine ← procedureName (n.fieldText "NAME")
  let arguments ← argumentValues n
  done (routine ++ "(" ++ ", ".intercalate arguments ++ ")")

def proceduresCallReturn (n : Node) : Script Emitted := do
  let call ← procedureCall n
  postfixValue call

def proceduresCallNoReturn (n : Node) : Script Emitted := do
  let call ← procedureCall n
  done (.statement (call ++ ";\n"))

/-- The line that leaves a procedure or handler. -/
def returnLine (o : Options) (n : Node) : Script String :=
  if n.mutation.hasReturnValue then do
    let value ← valueOr "VALUE" .anything "null"
    done (o.indent ++ "return " ++ value ++ ";\n")
  else done (o.indent ++ "return;\n")

/-- Leave a procedure on a condition. The suffix template comes before the return, which would
skip it otherwise. -/
def proceduresIfReturn (o : Options) (n : Node) : Script Emitted := do
  let condition ← valueOr "CONDITION" .anything "false"
  let suffix := Text.prefixLines ((o.suffixFor n.id).getD "") o.indent
  let leave ← returnLine o n
  done (.statement ("if (" ++ condition ++ ") \x7b\n" ++ suffix ++ leave ++ "\x7d\n"))

/-- A double underscore in a widget's name separates a module from its function. -/
def qualified (name : String) : String := Text.replaceAll name "__" "::"

def isQualified (name : String) : Bool := Text.holdsText "::".toList name.toList

/-- The name of the handler of a widget. -/
def handlerName (widget event : String) : String := qualified ("on_" ++ widget ++ "_" ++ event)

/-- What is said about a handler, its event, and the type of its result. -/
def handlerHead (widget : String) : Option String → String × String × String
  | some _ =>
      ("show", "ArgValue", "/// Callback function that will be called to create the formatted " ++
        "text for the label `" ++ widget ++ "`")
  | none =>
      ("press", "()", "/// Callback function that will be called when the button `" ++ widget ++
        "` is pressed")

/-- A handler of a widget: it shows a label if it has a result, and serves a button otherwise.
A function of a module is not defined here. -/
def widgetsDefine (o : Options) (n : Node) : Script Emitted := do
  let widget ← procedureName (n.fieldText "NAME")
  let body ← bodyOf "STACK"
  let announce := Text.prefixLines ((o.prefixFor n.id).getD "") o.indent
  let trap := Text.prefixLines ((o.trapFor n.id).getD "") o.indent
  let result ← value? "RETURN" .anything
  let (event, resultType, description) := handlerHead widget result
  let function := handlerName widget event
  if isQualified function then done .nothing
  else
    let arguments ← n.mutation.args.mapM variableName
    let head := function ++ "(" ++ ", ".intercalate (arguments.map (· ++ ": _")) ++
      ") -> MynewtResult<" ++ resultType ++ ">"
    defineRoutine function
      (description ++ "\n#[infer_type]  //  Infer the missing types\nfn " ++ head ++ " \x7b\n" ++
        o.indent ++ "console::print(\"" ++ function ++ "\\n\");\n" ++
        (trap ++ announce ++ body) ++
        o.indent ++ "Ok(" ++ result.getD "()" ++ ")\n\x7d")

def isQuoteMark (c : Char) : Bool := c == '"' || c == '\''

/-- The third argument of a listener is a handler, passed by its name without quotes. -/
def passHandlers (function : String) (arguments : List String) : List String :=
  if function = "sensor::new_sensor_listener" then
    arguments.mapIdx fun i argument =>
      if i = 2 then String.ofList (argument.toList.filter fun c => !isQuoteMark c) else argument
  else arguments

/-- The function that a widget call names, and the call. -/
def widgetCall (n : Node) : Script (String × String) := do
  let routine ← procedureName (n.fieldText "NAME")
  let function := qualified routine
  let arguments ← argumentValues n
  done (function, function ++ "(" ++ ", ".intercalate (passHandlers function arguments) ++ ")")

def widgetsCallReturn (n : Node) : Script Emitted := do
  let (function, call) ← widgetCall n
  if function = "sensor_network::get_device_id" then
    done (.value ("&" ++ call ++ " ?") .unaryPrefix)
  else postfixValue (call ++ " ?")

def widgetsCallNoReturn (n : Node) : Script Emitted := do
  let (_, call) ← widgetCall n
  done (.statement (call ++ " ? ;\n"))

def widgetsIfReturn (o : Options) (n : Node) : Script Emitted := do
  let condition ← valueOr "CONDITION" .anything "false"
  let leave ← returnLine o n
  done (.statement ("if " ++ condition ++ " \x7b\n" ++ leave ++ "\x7d\n"))

end BlockScript.Template
