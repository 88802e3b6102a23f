import BlockScript.Block

/-! # What can go wrong with a block

Each cause names the block, so that an editor can point at it. -/

namespace BlockScript

inductive GenerateError where
  | unknownKind (id kindName : String)
  | unknownOption (id kindName field value : String)
  | invalidNumber (id value : String)
  /-- A statement stands where a value belongs. -/
  | expectedValue (id kindName : String)
  /-- A value stands where a statement belongs. -/
  | expectedStatement (id kindName : String)
deriving DecidableEq, Repr

namespace GenerateError

def blockId : GenerateError → String
  | unknownKind id _ => id
  | unknownOption id _ _ _ => id
  | invalidNumber id _ => id
  | expectedValue id _ => id
  | expectedStatement id _ => id

/-- The type name that the error shows, if it shows one. -/
def kindName? : GenerateError → Option String
  | unknownKind _ kindName => some kindName
  | unknownOption _ kindName _ _ => some kindName
  | invalidNumber _ _ => none
  | expectedValue _ kindName => some kindName
  | expectedStatement _ kindName => some kindName

def message : GenerateError → String
  | unknownKind id kindName =>
      "no code generator for block type '" ++ kindName ++ "' (block " ++ id ++ ")"
  | unknownOption id kindName field value =>
      "unknown option '" ++ value ++ "' for field " ++ field ++ " of '" ++ kindName ++
        "' (block " ++ id ++ ")"
  | invalidNumber id value => "'" ++ value ++ "' is not a number (block " ++ id ++ ")"
  | expectedValue id kindName =>
      "block '" ++ kindName ++ "' (block " ++ id ++
        ") is a statement but was plugged into a value input"
  | expectedStatement id kindName =>
      "block '" ++ kindName ++ "' (block " ++ id ++
        ") is a value but was plugged into a statement input"

end GenerateError

namespace Node

/-- The error for a field whose value is none of the known ones, or is not there. -/
def unknownOption (n : Node) (field : String) (value : Option String) : GenerateError :=
  .unknownOption n.id n.kindName field (value.getD "<missing>")

end Node

end BlockScript
