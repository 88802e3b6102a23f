import BlockScript.Options
import BlockScript.Script

/-! # Messages and pins -/

namespace BlockScript.Template
open Script

/-- A message: its entries on lines of their own. -/
def coap (o : Options) (n : Node) : Script Emitted := do
  let entries ← numberedValues "ADD" .anything "''" n.mutation.items
  postfixValue (Text.joinLines
    ["coap!( @json \x7b", Text.prefixLines (",\n".intercalate entries) o.indent, "\x7d)"])

/-- An entry of a message. -/
def field (n : Node) : Script Emitted := do
  let value ← valueOr "name" .atomic "null"
  done (.value ("\"" ++ n.fieldText "NAME" ++ "\": " ++ value) .anything)

/-- The number of a pin. -/
def pinOf (n : Node) : Script String :=
  match n.field "PIN" with
  | none => fail (n.unknownOption "PIN" none)
  | some pin =>
      if !pin.isEmpty && pin.toList.all Text.isAsciiDigit then done pin
      else fail (n.unknownOption "PIN" (some pin))

def digitalTogglePin (n : Node) : Script Emitted := do
  let pin ← pinOf n
  done (.statement ("//  Toggle the GPIO pin\ngpio::toggle(" ++ pin ++ ") ? ;\n"))

def digitalReadPin (n : Node) : Script Emitted := do
  let pin ← pinOf n
  done (.value ("gpio::read(" ++ pin ++ ")") .anything)

/-- The level that a pin is set to. -/
def pinLevel (n : Node) : Script String :=
  match n.field "VALUE" with
  | some "0" => done "0"
  | some "1" => done "1"
  | other => fail (n.unknownOption "VALUE" other)

def digitalWritePin (n : Node) : Script Emitted := do
  let pin ← pinOf n
  let level ← pinLevel n
  done (.statement ("( pinmode " ++ pin ++ " :output )\n( digitalwrite " ++ pin ++ " " ++ level ++
    " )\n"))

end BlockScript.Template
