import BlockScript.Json.Value

/-! # Writing JSON

The spread-out form: a member or an item a line, two spaces deeper than what holds it. -/

namespace BlockScript.Json

def hexDigit (n : Nat) : Char :=
  if n < 10 then Char.ofNat (n + '0'.toNat) else Char.ofNat (n - 10 + 'a'.toNat)

/-- How a character stands in a string. -/
def encodeChar (c : Char) : List Char :=
  if c = '"' then ['\\', '"']
  else if c = '\\' then ['\\', '\\']
  else if c = '\n' then ['\\', 'n']
  else if c = '\r' then ['\\', 'r']
  else if c = '\t' then ['\\', 't']
  else if c = '\x08' then ['\\', 'b']
  else if c = '\x0c' then ['\\', 'f']
  else if c.toNat < 0x20 then
    ['\\', 'u', '0', '0', hexDigit (c.toNat / 16), hexDigit (c.toNat % 16)]
  else [c]

def encodeString (s : String) : String :=
  String.ofList ('"' :: (s.toList.flatMap encodeChar ++ ['"']))

def margin (depth : Nat) : String := String.ofList (List.replicate (2 * depth) ' ')

/-- Lines between brackets, or the brackets alone if there are none. -/
def spread (depth : Nat) (opening closing : String) (lines : List String) : String :=
  if lines.isEmpty then opening ++ closing
  else opening ++ "\n" ++
    ",\n".intercalate (lines.map (margin (depth + 1) ++ ·)) ++ "\n" ++ margin depth ++ closing

namespace Value

mutual

/-- The text of a value that starts on a line of the given depth. -/
def pretty (depth : Nat) : Value → String
  | null => "null"
  | bool b => if b then "true" else "false"
  | integer n => toString n
  | real x => x.dataText
  | string s => encodeString s
  | array items => spread depth "[" "]" (prettyItems (depth + 1) items)
  | object members => spread depth "\x7b" "\x7d" (prettyMembers (depth + 1) members)

def prettyItems (depth : Nat) : List Value → List String
  | [] => []
  | v :: rest => pretty depth v :: prettyItems depth rest

def prettyMembers (depth : Nat) : List (String × Value) → List String
  | [] => []
  | (name, v) :: rest =>
      (encodeString name ++ ": " ++ pretty depth v) :: prettyMembers depth rest

end

end Value

end BlockScript.Json
