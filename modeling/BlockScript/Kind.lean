import BlockScript.Text.Digit

/-! # Kinds of blocks

The closed list of block kinds that a script can be generated for, their type names in a saved
workspace, and the few facts about a kind that do not depend on the block. -/

namespace BlockScript

/-- The kinds of blocks. -/
inductive Kind where
  | controlsIf | controlsIfElse | logicCompare | logicOperation | logicNegate | logicBoolean
  | logicNull | logicTernary
  | mathNumber | mathArithmetic | mathSingle | mathRound | mathTrig | mathConstant
  | mathNumberProperty | mathChange | mathOnList | mathModulo | mathConstrain | mathRandomInt
  | mathRandomFloat | mathAtan2
  | text | textMultiline | textJoin | textAppend | textLength | textIsEmpty | textIndexOf
  | textCharAt | textGetSubstring | textChangeCase | textTrim | textPrint | textPrompt
  | textPromptExt | textCount | textReplace | textReverse
  | listsCreateEmpty | listsCreateWith | listsRepeat | listsLength | listsIsEmpty | listsIndexOf
  | listsGetIndex | listsSetIndex | listsGetSublist | listsSort | listsSplit | listsReverse
  | colourPicker | colourRandom | colourRgb | colourBlend
  | variablesGet | variablesSet | variablesGetDynamic | variablesSetDynamic
  | proceduresDefReturn | proceduresDefNoReturn | proceduresCallReturn | proceduresCallNoReturn
  | proceduresIfReturn
  | coap | field | forever | wait | digitalTogglePin | digitalReadPin | digitalWritePin
  | onStart | app | label | button
  | widgetsDefReturn | widgetsDefNoReturn | widgetsCallReturn | widgetsCallNoReturn
  | widgetsIfReturn
deriving DecidableEq, Repr

namespace Kind

/-- Every kind, in the order in which they are listed. -/
def all : List Kind :=
  [.controlsIf, .controlsIfElse, .logicCompare, .logicOperation, .logicNegate, .logicBoolean,
    .logicNull, .logicTernary, .mathNumber, .mathArithmetic, .mathSingle, .mathRound, .mathTrig,
    .mathConstant, .mathNumberProperty, .mathChange, .mathOnList, .mathModulo, .mathConstrain,
    .mathRandomInt, .mathRandomFloat, .mathAtan2, .text, .textMultiline, .textJoin, .textAppend,
    .textLength, .textIsEmpty, .textIndexOf, .textCharAt, .textGetSubstring, .textChangeCase,
    .textTrim, .textPrint, .textPrompt, .textPromptExt, .textCount, .textReplace, .textReverse,
    .listsCreateEmpty, .listsCreateWith, .listsRepeat, .listsLength, .listsIsEmpty, .listsIndexOf,
    .listsGetIndex, .listsSetIndex, .listsGetSublist, .listsSort, .listsSplit, .listsReverse,
    .colourPicker, .colourRandom, .colourRgb, .colourBlend, .variablesGet, .variablesSet,
    .variablesGetDynamic, .variablesSetDynamic, .proceduresDefReturn, .proceduresDefNoReturn,
    .proceduresCallReturn, .proceduresCallNoReturn, .proceduresIfReturn, .coap, .field, .forever,
    .wait, .digitalTogglePin, .digitalReadPin, .digitalWritePin, .onStart, .app, .label, .button,
    .widgetsDefReturn, .widgetsDefNoReturn, .widgetsCallReturn, .widgetsCallNoReturn,
    .widgetsIfReturn]

/-- The type name that saved blocks of a kind carry. -/
def typeName : Kind → String
  | .controlsIf => "controls_if"
  | .controlsIfElse => "controls_ifelse"
  | .logicCompare => "logic_compare"
  | .logicOperation => "logic_operation"
  | .logicNegate => "logic_negate"
  | .logicBoolean => "logic_boolean"
  | .logicNull => "logic_null"
  | .logicTernary => "logic_ternary"
  | .mathNumber => "math_number"
  | .mathArithmetic => "math_arithmetic"
  | .mathSingle => "math_single"
  | .mathRound => "math_round"
  | .mathTrig => "math_trig"
  | .mathConstant => "math_constant"
  | .mathNumberProperty => "math_number_property"
  | .mathChange => "math_change"
  | .mathOnList => "math_on_list"
  | .mathModulo => "math_modulo"
  | .mathConstrain => "math_constrain"
  | .mathRandomInt => "math_random_int"
  | .mathRandomFloat => "math_random_float"
  | .mathAtan2 => "math_atan2"
  | .text => "text"
  | .textMultiline => "text_multiline"
  | .textJoin => "text_join"
  | .textAppend => "text_append"
  | .textLength => "text_length"
  | .textIsEmpty => "text_isEmpty"
  | .textIndexOf => "text_indexOf"
  | .textCharAt => "text_charAt"
  | .textGetSubstring => "text_getSubstring"
  | .textChangeCase => "text_changeCase"
  | .textTrim => "text_trim"
  | .textPrint => "text_print"
  | .textPrompt => "text_prompt"
  | .textPromptExt => "text_prompt_ext"
  | .textCount => "text_count"
  | .textReplace => "text_replace"
  | .textReverse => "text_reverse"
  | .listsCreateEmpty => "lists_create_empty"
  | .listsCreateWith => "lists_create_with"
  | .listsRepeat => "lists_repeat"
  | .listsLength => "lists_length"
  | .listsIsEmpty => "lists_isEmpty"
  | .listsIndexOf => "lists_indexOf"
  | .listsGetIndex => "lists_getIndex"
  | .listsSetIndex => "lists_setIndex"
  | .listsGetSublist => "lists_getSublist"
  | .listsSort => "lists_sort"
  | .listsSplit => "lists_split"
  | .listsReverse => "lists_reverse"
  | .colourPicker => "colour_picker"
  | .colourRandom => "colour_random"
  | .colourRgb => "colour_rgb"
  | .colourBlend => "colour_blend"
  | .variablesGet => "variables_get"
  | .variablesSet => "variables_set"
  | .variablesGetDynamic => "variables_get_dynamic"
  | .variablesSetDynamic => "variables_set_dynamic"
  | .proceduresDefReturn => "procedures_defreturn"
  | .proceduresDefNoReturn => "procedures_defnoreturn"
  | .proceduresCallReturn => "procedures_callreturn"
  | .proceduresCallNoReturn => "procedures_callnoreturn"
  | .proceduresIfReturn => "procedures_ifreturn"
  | .coap => "coap"
  | .field => "field"
  | .forever => "forever"
  | .wait => "wait"
  | .digitalTogglePin => "digital_toggle_pin"
  | .digitalReadPin => "digital_read_pin"
  | .digitalWritePin => "digital_write_pin"
  | .onStart => "on_start"
  | .app => "app"
  | .label => "label"
  | .button => "button"
  | .widgetsDefReturn => "widgets_defreturn"
  | .widgetsDefNoReturn => "widgets_defnoreturn"
  | .widgetsCallReturn => "widgets_callreturn"
  | .widgetsCallNoReturn => "widgets_callnoreturn"
  | .widgetsIfReturn => "widgets_ifreturn"

/-- The kind with a type name. -/
def ofTypeName? (name : String) : Option Kind := all.find? fun kind => kind.typeName = name

/-- Kinds whose `VAR` field names a variable. -/
def usesVariableField : Kind → Bool
  | .variablesGet | .variablesSet | .variablesGetDynamic | .variablesSetDynamic
  | .mathChange | .textAppend => true
  | _ => false

/-- Kinds whose `NAME` field names a procedure that they define. -/
def isProcedureDefinition : Kind → Bool
  | .proceduresDefReturn | .proceduresDefNoReturn
  | .widgetsDefReturn | .widgetsDefNoReturn => true
  | _ => false

/-- `DO` and a number. -/
def isBranchName : List Char → Bool
  | 'D' :: 'O' :: digits => !digits.isEmpty && digits.all Text.isAsciiDigit
  | _ => false

/-- Does the input hold a chain of statements rather than a value? A saved form that does not
tell the two apart relies on this. -/
def isStatementInput (kind : Kind) (input : String) : Bool :=
  match kind with
  | .controlsIf | .controlsIfElse => input == "ELSE" || isBranchName input.toList
  | .proceduresDefReturn | .proceduresDefNoReturn
  | .widgetsDefReturn | .widgetsDefNoReturn => input == "STACK"
  | .forever | .onStart => input == "STMTS"
  | _ => false

/-- Kinds that place the statement templates themselves. -/
def suppressesTemplates : Kind → Bool
  | .controlsIf | .controlsIfElse | .proceduresIfReturn => true
  | _ => false

theorem mem_all (kind : Kind) : kind ∈ all := by
  cases kind <;> decide +kernel

theorem typeName_of_ofTypeName? {name : String} {kind : Kind} (h : ofTypeName? name = some kind) :
    kind.typeName = name := by
  simpa using List.find?_some h

end Kind

end BlockScript
