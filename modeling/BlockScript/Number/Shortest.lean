import BlockScript.Number.Binary64

/-! # The shortest decimal

Among the decimals that read back as a given number, the one with the fewest digits, and of
those the nearest. The reals that round to a number form an interval around it; the search
goes through the decimal grids of 1, 2, … digits and tests the two grid points next to the
number. -/

namespace BlockScript.Number

/-- A positive number and the ends of the interval that rounds to it, over one denominator. -/
structure Interval where
  low : Nat
  mid : Nat
  high : Nat
  den : Nat
  closed : Bool
deriving Repr

namespace Interval

/-- The interval of `significand · 2^exponent`. Below a power of two the numbers lie twice as
dense, except at the least exponent. -/
def ofFinite (significand : Nat) (exponent : Int) : Interval :=
  let below := if significand = Binary64.leastNormal ∧ exponent ≠ Binary64.minExponent then 1 else 2
  let (a, den) := Binary64.scale 1 (exponent - 2)
  { low := (4 * significand - below) * a
    mid := 4 * significand * a
    high := (4 * significand + 2) * a
    den
    closed := significand % 2 = 0 }

/-- Does `n · unit / 1` lie in the interval, where bounds are given over the same unit? -/
def holds (closed : Bool) (low high point : Nat) : Bool :=
  if closed then low ≤ point && point ≤ high else low < point && point < high

/-- The place of the leading digit: the greatest `p` with `10^p` not above the number. -/
def leadingPlace (i : Interval) : Int :=
  if i.den ≤ i.mid then (Nat.toDigits 10 (i.mid / i.den)).length - 1
  else -((Nat.toDigits 10 ((i.den + i.mid - 1) / i.mid - 1)).length : Int)

/-- The multiple of `10^place` next to the number that the interval holds, if any; the nearer
of two, and the upper one or the even one of two that are equally near. -/
def onGrid (tie : Tie) (i : Interval) (place : Int) : Option Nat :=
  let (up, down) := if 0 ≤ place then (Nat.pow 10 place.toNat, 1) else (1, Nat.pow 10 (-place).toNat)
  let unit := up * i.den
  let low := i.low * down
  let mid := i.mid * down
  let high := i.high * down
  let below := mid / unit
  let above := below + 1
  let hasBelow := 0 < below && holds i.closed low high (below * unit)
  let hasAbove := holds i.closed low high (above * unit)
  match hasBelow, hasAbove with
  | false, false => none
  | true, false => some below
  | false, true => some above
  | true, true => some (roundDiv tie mid unit)

end Interval

/-- Divide by ten while that leaves no remainder; `fuel` bounds the divisions. -/
def dropZeros : Nat → Nat → Int → Nat × Int
  | 0, digits, place => (digits, place)
  | fuel + 1, digits, place =>
      if digits % 10 = 0 then dropZeros fuel (digits / 10) (place + 1) else (digits, place)

/-- Digits and the place of the last one, for a positive number. Seventeen digits always
suffice. -/
def shortest (tie : Tie) (significand : Nat) (exponent : Int) : Nat × Int :=
  let i := Interval.ofFinite significand exponent
  let top := i.leadingPlace
  let hit := (List.range 17).findSome? fun (n : Nat) =>
    (i.onGrid tie (top - (n : Int))).map fun digits => (digits, top - (n : Int))
  match hit with
  | some (digits, place) => dropZeros 17 digits place
  | none => (significand, exponent)

end BlockScript.Number
