import BlockScript.Kind
import BlockScript.Template.Control
import BlockScript.Template.Device
import BlockScript.Template.Element
import BlockScript.Template.Function
import BlockScript.Template.ListValue
import BlockScript.Template.Operator
import BlockScript.Template.Routine
import BlockScript.Template.Sequence
import BlockScript.Template.Text
import BlockScript.Template.Window

/-! # The script of a block

Every kind of block has a script, which depends on the options and on what the block shows
itself. -/

namespace BlockScript
/-- The script of a block of a kind. -/
def Kind.script (kind : Kind) (o : Options) (n : Node) : Script Emitted :=
  match kind with
  | .controlsIf => Template.controlsIf false o n
  | .controlsIfElse => Template.controlsIf true o n
  | .logicCompare => Template.logicCompare n
  | .logicOperation => Template.logicOperation n
  | .logicNegate => Template.logicNegate
  | .logicBoolean => Template.logicBoolean n
  | .logicNull => Template.logicNull
  | .logicTernary => Template.logicTernary
  | .mathNumber => Template.mathNumber n
  | .mathArithmetic => Template.mathArithmetic n
  | .mathSingle | .mathRound | .mathTrig => Template.mathSingle n
  | .mathConstant => Template.mathConstant n
  | .mathNumberProperty => Template.mathNumberProperty n
  | .mathChange => Template.mathChange n
  | .mathOnList => Template.mathOnList n
  | .mathModulo => Template.mathModulo
  | .mathConstrain => Template.mathConstrain
  | .mathRandomInt => Template.mathRandomInt
  | .mathRandomFloat => Template.mathRandomFloat
  | .mathAtan2 => Template.mathAtan2
  | .text => Template.textLiteral n
  | .textMultiline => Template.textMultiline n
  | .textJoin => Template.textJoin n
  | .textAppend => Template.textAppend n
  | .textLength => Template.sequenceLength .text
  | .textIsEmpty => Template.sequenceIsEmpty .text
  | .textIndexOf => Template.sequenceIndexOf .text o n
  | .textCharAt => Template.textCharAt o n
  | .textGetSubstring => Template.textGetSubstring o n
  | .textChangeCase => Template.textChangeCase n
  | .textTrim => Template.textTrim n
  | .textPrint => Template.textPrint
  | .textPrompt | .textPromptExt => Template.textPrompt n
  | .textCount => Template.textCount
  | .textReplace => Template.textReplace
  | .textReverse => Template.textReverse
  | .listsCreateEmpty => Template.listsCreateEmpty
  | .listsCreateWith => Template.listsCreateWith n
  | .listsRepeat => Template.listsRepeat
  | .listsLength => Template.sequenceLength .list
  | .listsIsEmpty => Template.sequenceIsEmpty .list
  | .listsIndexOf => Template.sequenceIndexOf .list o n
  | .listsGetIndex => Template.listsGetIndex o n
  | .listsSetIndex => Template.listsSetIndex o n
  | .listsGetSublist => Template.listsGetSublist o n
  | .listsSort => Template.listsSort n
  | .listsSplit => Template.listsSplit n
  | .listsReverse => Template.listsReverse
  | .colourPicker => Template.colourPicker n
  | .colourRandom => Template.colourRandom
  | .colourRgb => Template.colourRgb
  | .colourBlend => Template.colourBlend
  | .variablesGet | .variablesGetDynamic => Template.variablesGet n
  | .variablesSet | .variablesSetDynamic => Template.variablesSet n
  | .proceduresDefReturn | .proceduresDefNoReturn => Template.proceduresDefine o n
  | .proceduresCallReturn => Template.proceduresCallReturn n
  | .proceduresCallNoReturn => Template.proceduresCallNoReturn n
  | .proceduresIfReturn => Template.proceduresIfReturn o n
  | .coap => Template.coap o n
  | .field => Template.field n
  | .forever => Template.forever o n
  | .wait => Template.wait n
  | .digitalTogglePin => Template.digitalTogglePin n
  | .digitalReadPin => Template.digitalReadPin n
  | .digitalWritePin => Template.digitalWritePin n
  | .onStart => Template.onStart
  | .app => Template.app o n
  | .label => Template.label o n
  | .button => Template.button o n
  | .widgetsDefReturn | .widgetsDefNoReturn => Template.widgetsDefine o n
  | .widgetsCallReturn => Template.widgetsCallReturn n
  | .widgetsCallNoReturn => Template.widgetsCallNoReturn n
  | .widgetsIfReturn => Template.widgetsIfReturn o n

end BlockScript
