import BlockScript.Number.Shortest

/-! # Numbers as text

A script writes numbers positionally and never with an exponent. A workspace that holds numbers
as data writes very large and very small ones with an exponent. Widths have one decimal. -/

namespace BlockScript.Number

def zeros (n : Nat) : String := String.ofList (List.replicate n '0')

/-- Digits whose last one stands at `10^place`, without an exponent. -/
def positional (digits : Nat) (place : Int) : String :=
  let text := toString digits
  let n := text.length
  if 0 ≤ place then text ++ zeros place.toNat
  else
    let fraction := (-place).toNat
    if fraction < n then
      let cs := text.toList
      String.ofList (cs.take (n - fraction) ++ '.' :: cs.drop (n - fraction))
    else "0." ++ zeros (fraction - n) ++ text

def signText (negative : Bool) : String := if negative then "-" else ""

namespace Binary64

/-- The fewest digits that read back, positionally; of two equally near, the upper. -/
def display : Binary64 → String
  | .nan => "NaN"
  | .infinite negative => signText negative ++ "inf"
  | .finite negative m e =>
      if m = 0 then signText negative ++ "0"
      else
        let (digits, place) := shortest .up m e
        signText negative ++ positional digits place

/-- A number as the script writes it: no zero has a sign. -/
def scriptText (x : Binary64) : String := if x.isZero then "0" else x.display

/-- One decimal, from the exact value, a tie going to the even digit. -/
def oneDecimal : Binary64 → String
  | .nan => "NaN"
  | .infinite negative => signText negative ++ "inf"
  | .finite negative m e =>
      let (a, b) := scale (m * 10) e
      let tenths := roundDiv .toEven a b
      signText negative ++ toString (tenths / 10) ++ "." ++ toString (tenths % 10)

/-- A number as data: positional from 10^-5 up to below 10^16, with `.0` after a whole number,
and otherwise one digit, the point, the rest and an exponent. -/
def dataText : Binary64 → String
  | .nan => display .nan
  | .infinite negative => display (.infinite negative)
  | .finite negative m e =>
      if m = 0 then signText negative ++ "0.0"
      else
        let (digits, place) := shortest .toEven m e
        let text := toString digits
        let power : Int := (text.length : Int) - 1 + place
        let body :=
          if -5 ≤ power ∧ power ≤ 15 then
            positional digits place ++ (if 0 ≤ place then ".0" else "")
          else
            let cs := text.toList
            let fraction := if cs.length ≤ 1 then [] else '.' :: cs.drop 1
            String.ofList (cs.take 1 ++ fraction) ++ "e" ++
              (if power < 0 then "-" else "+") ++ toString power.natAbs
        signText negative ++ body

end Binary64

end BlockScript.Number
