import BlockScript.Number.Binary64
import BlockScript.Text.Blank
import BlockScript.Text.Digit

/-! # Decimal text

Reading numbers from decimal text, with a sign and a power of ten, and whole numbers from
digits alone. -/

namespace BlockScript.Number
open Text

/-- `coefficient · 10 ^ power`, the meaning of an unsigned decimal. -/
structure Decimal where
  coefficient : Nat
  power : Int
deriving DecidableEq, Repr

/-- A leading sign and what follows it. -/
def splitSign : List Char → Bool × List Char
  | '-' :: rest => (true, rest)
  | '+' :: rest => (false, rest)
  | cs => (false, cs)

def spanAsciiDigits (cs : List Char) : List Char × List Char :=
  (cs.takeWhile isAsciiDigit, cs.dropWhile isAsciiDigit)

/-- The power of ten that ends a decimal: nothing at all, or a mark, a sign and digits. -/
def readPower : List Char → Option Int
  | [] => some 0
  | c :: rest =>
      if c = 'e' ∨ c = 'E' then
        let (negative, digits) := splitSign rest
        if digits.isEmpty || !digits.all isAsciiDigit then none
        else some (Binary64.withSign negative (digitsValue digits))
      else none

/-- An unsigned decimal. The point may stand first or last, but not alone. -/
def readDecimal (cs : List Char) : Option Decimal :=
  let (whole, rest) := spanAsciiDigits cs
  let (fraction, rest) :=
    match rest with
    | '.' :: tail => spanAsciiDigits tail
    | _ => ([], rest)
  if whole.isEmpty && fraction.isEmpty then none
  else (readPower rest).map fun power =>
    ⟨digitsValue (whole ++ fraction), power - fraction.length⟩

def Decimal.toBinary64 (d : Decimal) (negative : Bool) : Binary64 :=
  .ofDecimal negative d.coefficient d.power

/-- Small ASCII letters for capitals. -/
def lowerAscii (c : Char) : Char := if 'A' ≤ c ∧ c ≤ 'Z' then Char.ofNat (c.toNat + 32) else c

/-- A number of the 64-bit format: a decimal, or an infinity or no number by name. -/
def readBinary64 (cs : List Char) : Option Binary64 :=
  let (negative, body) := splitSign cs
  let name := String.ofList (body.map lowerAscii)
  if name = "inf" ∨ name = "infinity" then some (.infinite negative)
  else if name = "nan" then some .nan
  else (readDecimal body).map (·.toBinary64 negative)

/-- A number in a field. Blank text is zero, and an infinity has one spelling only. -/
def readField (text : String) : Option Binary64 :=
  let body := trim text.toList
  if body.isEmpty then some .zero
  else if body = "Infinity".toList ∨ body = "+Infinity".toList then some (.infinite false)
  else if body = "-Infinity".toList then some (.infinite true)
  else (readBinary64 body).filter Binary64.isFinite

/-- A coordinate, rounded to a whole number. -/
def readCoordinate (text : String) : Option Int :=
  (readBinary64 (trim text.toList)).map Binary64.roundInt64

/-- The whole numbers that a count may take are below this bound, 2^64. -/
def countBound : Nat := 0x10000000000000000

/-- A count: ASCII digits, with a plus sign in front or none. -/
def readCount (cs : List Char) : Option Nat :=
  let digits := match cs with
    | '+' :: rest => rest
    | _ => cs
  if digits.isEmpty || !digits.all isAsciiDigit then none
  else
    let n := digitsValue digits
    if n < countBound then some n else none

end BlockScript.Number
