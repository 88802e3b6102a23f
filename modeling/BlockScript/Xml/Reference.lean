import BlockScript.Table
import BlockScript.Xml.Token

/-! # References

A reference stands for a character, or for the text of an entity that the document defines. -/

namespace BlockScript.Xml

/-- The texts of entities; those for use in definitions have a percent sign in front of their
names. -/
abbrev Entities := Table (List Char)

inductive Reference where
  | character (c : Char)
  | entity (text : List Char)

def hexDigit? (c : Char) : Option Nat :=
  if '0' ≤ c ∧ c ≤ '9' then some (c.toNat - '0'.toNat)
  else if 'a' ≤ c ∧ c ≤ 'f' then some (c.toNat - 'a'.toNat + 10)
  else if 'A' ≤ c ∧ c ≤ 'F' then some (c.toNat - 'A'.toNat + 10)
  else none

def decimalDigit? (c : Char) : Option Nat :=
  if '0' ≤ c ∧ c ≤ '9' then some (c.toNat - '0'.toNat) else none

/-- The number that digits denote in a base. -/
def readDigits? (base : Nat) (digit? : Char → Option Nat) (cs : List Char) : Option Nat :=
  if cs.isEmpty then none
  else cs.foldlM (fun n c => (digit? c).map fun d => base * n + d) 0

/-- The number that digits denote in a base, perhaps behind a plus sign. -/
def readNumber? (base : Nat) (digit? : Char → Option Nat) : List Char → Option Nat
  | '+' :: cs => readDigits? base digit? cs
  | cs => readDigits? base digit? cs

/-- The character with a number, as what stands behind the number sign says. -/
def numbered? (v : Version) (cs : List Char) : Option Char := do
  let n ← match cs with
    | 'x' :: digits => readNumber? 16 hexDigit? digits
    | digits => readNumber? 10 decimalDigit? digits
  if n.isValidChar ∧ v.admits (Char.ofNat n) then some (Char.ofNat n) else none

/-- The five characters that have names in every document. -/
def predefined? : String → Option Char
  | "lt" => some '<'
  | "gt" => some '>'
  | "amp" => some '&'
  | "apos" => some '\''
  | "quot" => some '"'
  | _ => none

def resolve? (v : Version) (entities : Entities) (name : List Char) : Option Reference :=
  match name with
  | '#' :: number => (numbered? v number).map .character
  | _ =>
      match predefined? (String.ofList name) with
      | some c => some (.character c)
      | none => (entities.get? (String.ofList name)).map .entity

/-- A reference, after the ampersand. -/
def readReference (v : Version) (entities : Entities) : Reader Reference := fun c => do
  let (t, c) ← c.token?
  let first ← t.char?
  let ((rest, t), c) ← c.span isNameChar
  if (isNameStart first || first == '#') && t == .referenceEnd then
    let reference ← resolve? v entities (first :: rest)
    some (reference, c)
  else none

end BlockScript.Xml
