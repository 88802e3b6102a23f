import BlockScript.Script

/-! # Lists

Making lists, sorting and reversing them, and going from texts to lists and back. -/

namespace BlockScript.Template
open Script

def listsCreateEmpty : Script Emitted := done (.value "[]" .atomic)

def listsCreateWith (n : Node) : Script Emitted := do
  let items ← numberedValues "ADD" .anything "null" n.mutation.items
  done (.value ("[" ++ ", ".intercalate items ++ "]") .atomic)

def listsRepeat : Script Emitted := do
  let item ← valueOr "ITEM" .anything "null"
  let count ← valueOr "NUM" .anything "0"
  postfixValue ("new List.filled(" ++ count ++ ", " ++ item ++ ")")

def sortOrders : List String := ["NUMERIC", "TEXT", "IGNORE_CASE"]

/-- Lists are sorted upwards only where the field says so. -/
def sortDirection (n : Node) : String := if n.field "DIRECTION" = some "1" then "1" else "-1"

def listsSort (n : Node) : Script Emitted := do
  let sortOrder ← n.requiredField "TYPE"
  if sortOrders.contains sortOrder then
    let list ← valueOr "LIST" .anything "[]"
    let name ← helperName .sortList
    postfixValue (name ++ "(" ++ list ++ ", \"" ++ sortOrder ++ "\", " ++ sortDirection n ++ ")")
  else fail (n.unknownOption "TYPE" (some sortOrder))

/-- The method that splits or joins, and the code of the empty input. -/
def splitMethod? : String → Option (String × String)
  | "SPLIT" => some ("split", "''")
  | "JOIN" => some ("join", "[]")
  | _ => none

def listsSplit (n : Node) : Script Emitted := do
  let mode ← n.requiredField "MODE"
  match splitMethod? mode with
  | none => fail (n.unknownOption "MODE" (some mode))
  | some (method, empty) =>
      let input ← valueOr "INPUT" .unaryPostfix empty
      let delimiter ← valueOr "DELIM" .anything "''"
      postfixValue (input ++ "." ++ method ++ "(" ++ delimiter ++ ")")

def listsReverse : Script Emitted := do
  let list ← valueOr "LIST" .unaryPostfix "[]"
  postfixValue ("new List.from(" ++ list ++ ".reversed)")

end BlockScript.Template
