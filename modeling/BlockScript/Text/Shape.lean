import BlockScript.Text.Blank
import BlockScript.Text.Digit
import BlockScript.Text.Word

/-! # Shapes of fragments

A fragment that is one word, perhaps quoted, may be evaluated more than once; one that is a
number may be folded. Both are told from the text alone. -/

namespace BlockScript.Text

/-- One word: a plain identifier or an unsigned whole number. -/
def isBareWord (code : String) : Bool :=
  !code.toList.isEmpty && code.toList.all isWordChar

/-- Without a quote in front, if there is one. -/
def dropQuote : List Char → List Char
  | '\'' :: rest => rest
  | cs => cs

/-- One word, with or without a quote at either end. -/
def isQuotedWord (code : String) : Bool :=
  let body := dropQuote code.toList
  !(body.takeWhile isWordChar).isEmpty && (dropQuote (body.dropWhile isWordChar)).isEmpty

/-- Split off the leading decimal digits. -/
def spanDigits (cs : List Char) : List Char × List Char :=
  (cs.takeWhile isDecimalDigit, cs.dropWhile isDecimalDigit)

def dropMinus : List Char → List Char
  | '-' :: rest => rest
  | cs => cs

/-- What follows the digits of a number, or nothing where there are no digits. A fraction may
stand without a whole part, but a point needs a digit after it. -/
def dropMagnitude (cs : List Char) : Option (List Char) :=
  let (whole, rest) := spanDigits cs
  match rest with
  | '.' :: tail =>
      let (fraction, after) := spanDigits tail
      if fraction.isEmpty then none else some after
  | _ => if whole.isEmpty then none else some rest

/-- What follows an exponent, if one starts here. -/
def dropExponent : List Char → Option (List Char)
  | 'e' :: rest =>
      let (digits, after) := spanDigits (dropMinus rest)
      if digits.isEmpty then none else some after
  | cs => some cs

/-- A decimal number, with white space around it. -/
def isNumericLiteral (code : String) : Bool :=
  match dropMagnitude (dropMinus (trimStart code.toList)) with
  | none => false
  | some rest =>
      match dropExponent rest with
      | none => false
      | some after => after.all isBlank

end BlockScript.Text
