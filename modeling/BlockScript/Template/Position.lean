import BlockScript.Options
import BlockScript.Script
import BlockScript.Number.Text
import BlockScript.Text.Shape

/-! # Positions

Where in a text or a list an element lies, and the code of an index. The user may count from one
and the script counts from zero, so an index is shifted; a literal one is shifted right away. -/

namespace BlockScript.Template
open Script Number

/-- Where an element lies. -/
inductive Position where
  | first
  | last
  | fromStart
  | fromEnd
  | random
deriving DecidableEq, Repr

namespace Position

def name : Position → String
  | first => "FIRST"
  | last => "LAST"
  | fromStart => "FROM_START"
  | fromEnd => "FROM_END"
  | random => "RANDOM"

def ofName? : String → Option Position
  | "FIRST" => some first
  | "LAST" => some last
  | "FROM_START" => some fromStart
  | "FROM_END" => some fromEnd
  | "RANDOM" => some random
  | _ => none

@[simp] theorem ofName?_name (p : Position) : ofName? p.name = some p := by cases p <;> rfl

end Position

/-- The position in a field, or a default where there is no such field. -/
def positionOr (n : Node) (field : String) (default : Option Position) : Script Position :=
  match n.field field, default with
  | none, some position => done position
  | none, none => fail (n.unknownOption field none)
  | some given, _ =>
      match Position.ofName? given with
      | some position => done position
      | none => fail (n.unknownOption field (some given))

/-- Whole numbers up to this size, 2^53, are held exactly by the 64-bit format. -/
def exactBound : Nat := 0x20000000000000

/-- The shifted value of a numeral, unless it is too large to be exact. Digits of other scripts
are left alone. -/
def foldIndex (literal : String) (shift : Int) : Option Int :=
  match (readBinary64 (Text.trim literal.toList)).bind Binary64.truncate? with
  | none => none
  | some base => if exactBound < base.natAbs then none else some (base + shift)

/-- Code with a whole number added to it. -/
def shiftedCode (code : String) (shift : Int) (required : Precedence) : String :=
  if 0 < shift then Precedence.wrap (code ++ " + " ++ toString shift) .additive required
  else if shift < 0 then Precedence.wrap (code ++ " - " ++ toString (-shift)) .additive required
  else code

/-- The code of an index, shifted, for a place of the given level. -/
def shiftIndex (code : String) (shift : Int) (required : Precedence) : String :=
  match if Text.isNumericLiteral code then foldIndex code shift else none with
  | some folded => toString folded
  | none => shiftedCode code shift required

/-- How far the index of an input is shifted. -/
def indexShift (o : Options) (delta : Int) : Int := if o.oneBasedIndex then delta - 1 else delta

/-- The index in an input, with `delta` added and counted from zero. -/
def adjustedIndex (o : Options) (input : String) (delta : Int) (required : Precedence) :
    Script String := do
  let shift := indexShift o delta
  let code ← valueOr input (if shift ≠ 0 then .additive else required) o.firstIndex
  done (shiftIndex code shift required)

/-- Subtraction takes a right operand of this level. -/
def subtrahend : Precedence := Precedence.additive.tighter

end BlockScript.Template
