import BlockScript.Kind
import BlockScript.Block
import BlockScript.Text.Lines

/-! # Remarks

The comments of the user become comment lines of the script: a block's own comment, then those
of the values plugged into it. -/

namespace BlockScript

/-- The remarks of a block and of all below it, a line or more each. -/
def Block.remarks (b : Block) : List String := b.walk.filterMap Node.remark

/-- What starts a comment line; a definition has doc comments. -/
def commentMark (kind : Kind) : String := if kind.isProcedureDefinition then "/// " else "// "

/-- The comment lines of a block's own remark. -/
def ownRemarkLines (kind : Kind) (n : Node) : String :=
  match n.remark with
  | none => ""
  | some remark => Text.prefixLines (remark ++ "\n") (commentMark kind)

/-- The comment lines of a value. -/
def valueRemarkLines (b : Block) : String :=
  match b.remarks with
  | [] => ""
  | remarks => Text.prefixLines (Text.joinLines (remarks ++ [""])) "// "

/-- The comment lines of a block: its own remark, then those of its values in order. -/
def remarkLines (kind : Kind) (n : Node) (values : List (String × Block)) : String :=
  ownRemarkLines kind n ++ String.join (values.map fun input => valueRemarkLines input.2)

end BlockScript
