import BlockScript.Number.Rounding

/-! # Binary floating-point numbers

Numbers of the 64-bit binary format, held exactly: a finite one is a sign, a significand below
2^53 and a power of two not below 2^-1074. Every operation works on natural numbers and rounds
once, to the nearest number of the format, a tie to the even significand. -/

namespace BlockScript.Number

inductive Binary64 where
  | nan
  | infinite (negative : Bool)
  | finite (negative : Bool) (significand : Nat) (exponent : Int)
deriving DecidableEq, Repr

namespace Binary64

/-- The least exponent; zero and the subnormal numbers have it. -/
def minExponent : Int := -1074

def maxExponent : Int := 971

/-- The least significand of a number that is neither zero nor subnormal, 2^52. -/
def leastNormal : Nat := 0x10000000000000

/-- The bit that holds the sign, 2^63. -/
def signBit : Nat := 0x8000000000000000

def zero : Binary64 := .finite false 0 minExponent

/-- `n · 2^e` as a quotient. -/
def scale (n : Nat) (e : Int) : Nat × Nat :=
  if 0 ≤ e then (n * Nat.pow 2 e.toNat, 1) else (n, Nat.pow 2 (-e).toNat)

/-- The greatest `k` with `2^k ≤ num / den`, for positive `num` and `den`. -/
def floorLog2 (num den : Nat) : Int :=
  let k : Int := (num.log2 : Int) - den.log2
  let (a, b) := scale 1 k
  if a * den ≤ num * b then k else k - 1

/-- The number of the format nearest to `num / den`. -/
def ofRatio (negative : Bool) (num den : Nat) : Binary64 :=
  if num = 0 then .finite negative 0 minExponent
  else
    let e := max (floorLog2 num den - 52) minExponent
    let (a, b) := scale 1 e
    let m := roundDiv .toEven (num * b) (den * a)
    let (m, e) := if m = 2 * leastNormal then (leastNormal, e + 1) else (m, e)
    if m = 0 then .finite negative 0 minExponent
    else if maxExponent < e then .infinite negative
    else .finite negative m e

/-- The number of the format nearest to `c · 10^x`. Outside the exponents tried first, the
result is infinite or zero whatever the digits are. -/
def ofDecimal (negative : Bool) (c : Nat) (x : Int) : Binary64 :=
  let places : Int := (Nat.toDigits 10 c).length
  if c = 0 then .finite negative 0 minExponent
  else if 310 < x + places then .infinite negative
  else if x + places < -330 then .finite negative 0 minExponent
  else if 0 ≤ x then ofRatio negative (c * Nat.pow 10 x.toNat) 1
  else ofRatio negative c (Nat.pow 10 (-x).toNat)

def ofInt (n : Int) : Binary64 := ofRatio (n < 0) n.natAbs 1

def isFinite : Binary64 → Bool
  | .finite .. => true
  | _ => false

def isZero : Binary64 → Bool
  | .finite _ m _ => m == 0
  | _ => false

/-- Strictly below zero; a zero with a sign is not. -/
def isNegative : Binary64 → Bool
  | .finite negative m _ => negative && m != 0
  | .infinite negative => negative
  | .nan => false

/-- The product with a natural number. -/
def mulNat (x : Binary64) (n : Nat) : Binary64 :=
  match x with
  | .nan => .nan
  | .infinite negative => if n = 0 then .nan else .infinite negative
  | .finite negative m e =>
      let (a, b) := scale (m * n) e
      ofRatio negative a b

def withSign (negative : Bool) (n : Nat) : Int := if negative then -(n : Int) else n

/-- The whole part of a finite number. -/
def truncate? : Binary64 → Option Int
  | .finite negative m e =>
      let (a, b) := scale m e
      some (withSign negative (a / b))
  | _ => none

/-- The least integer of 64 bits, -2^63. -/
def minInt64 : Int := -0x8000000000000000

/-- The greatest integer of 64 bits, 2^63 - 1. -/
def maxInt64 : Int := 0x7FFFFFFFFFFFFFFF

def clampInt64 (n : Int) : Int := max minInt64 (min maxInt64 n)

/-- The nearest 64-bit integer, a tie going away from zero. -/
def roundInt64 : Binary64 → Int
  | .nan => 0
  | .infinite negative => if negative then minInt64 else maxInt64
  | .finite negative m e =>
      let (a, b) := scale m e
      clampInt64 (withSign negative (roundDiv .up a b))

/-- The 64 bits of the interchange form. -/
def toBits : Binary64 → Nat
  | .nan => 0x7FF8000000000000
  | .infinite negative => (if negative then signBit else 0) + 0x7FF0000000000000
  | .finite negative m e =>
      let sign := if negative then signBit else 0
      if m < leastNormal then sign + m
      else sign + (e - minExponent + 1).toNat * leastNormal + (m - leastNormal)

/-- The number that 64 bits encode. -/
def ofBits (bits : Nat) : Binary64 :=
  let negative : Bool := signBit ≤ bits
  let biased : Nat := bits / leastNormal % 2048
  let fraction : Nat := bits % leastNormal
  if biased = 2047 then (if fraction = 0 then .infinite negative else .nan)
  else if biased = 0 then .finite negative fraction minExponent
  else .finite negative (fraction + leastNormal) (minExponent + (biased : Int) - 1)

end Binary64

end BlockScript.Number
