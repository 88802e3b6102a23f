import BlockScript.Number.Text
import BlockScript.Table

/-! # JSON values

The members of an object are kept as they were written. Seen as a map, an object has the last
value written for each name, and its names come in order. -/

namespace BlockScript.Json

inductive Value where
  | null
  | bool (b : Bool)
  | integer (n : Int)
  | real (x : Number.Binary64)
  | string (s : String)
  | array (items : List Value)
  | object (members : List (String × Value))

/-- Insert a member by name; the later of two of one name stays. -/
def insertMember (name : String) (value : Value) : List (String × Value) → List (String × Value)
  | [] => [(name, value)]
  | (n, v) :: rest =>
      if name < n then (name, value) :: (n, v) :: rest
      else if n < name then (n, v) :: insertMember name value rest
      else (n, value) :: rest

namespace Value

/-- The members in order of their names, each name once. -/
def sortedMembers (members : List (String × Value)) : List (String × Value) :=
  members.foldl (fun sorted m => insertMember m.1 m.2 sorted) []

/-- The value of the last member of a name. -/
def get? : Value → String → Option Value
  | object members, name => Table.get? members.reverse name
  | _, _ => none

def asString? : Value → Option String
  | string s => some s
  | _ => none

def asBool? : Value → Option Bool
  | bool b => some b
  | _ => none

def asArray? : Value → Option (List Value)
  | array items => some items
  | _ => none

/-- The members of an object, in order of their names. -/
def asObject? : Value → Option (List (String × Value))
  | object members => some (sortedMembers members)
  | _ => none

/-- A number of either form. -/
def asNumber? : Value → Option Number.Binary64
  | integer n => some (.ofInt n)
  | real x => some x
  | _ => none

/-- The text of a scalar. -/
def scalarText? : Value → Option String
  | string s => some s
  | integer n => some (toString n)
  | real x => some x.dataText
  | bool b => some (if b then "true" else "false")
  | _ => none

end Value

end BlockScript.Json
