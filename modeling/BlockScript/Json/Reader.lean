import BlockScript.Json.Value
import BlockScript.Number.Decimal

/-! # Reading JSON

Strict JSON: one value, four blanks, no control characters in strings, and no half of a
surrogate pair alone. Arrays and objects nest to a fixed depth.

Every reader that repeats something gets a bound on the repetitions. Each of them takes at least
one character, so any number above that of the characters will do. -/

namespace BlockScript.Json
open Number Text

/-- A reader takes a value off the front of a text, or refuses it. -/
abbrev Reader (α : Type) := List Char → Option (α × List Char)

def isSpace (c : Char) : Bool := c == ' ' || c == '\n' || c == '\t' || c == '\r'

def skipSpace (cs : List Char) : List Char := cs.dropWhile isSpace

/-- What follows a fixed word. -/
def expect (word : String) (cs : List Char) : Option (List Char) :=
  if word.toList.isPrefixOf cs then some (cs.drop word.length) else none

def hexValue (c : Char) : Option Nat :=
  if '0' ≤ c ∧ c ≤ '9' then some (c.toNat - '0'.toNat)
  else if 'a' ≤ c ∧ c ≤ 'f' then some (c.toNat - 'a'.toNat + 10)
  else if 'A' ≤ c ∧ c ≤ 'F' then some (c.toNat - 'A'.toNat + 10)
  else none

/-- A number of four hexadecimal digits. -/
def readHex4 : Reader Nat
  | a :: b :: c :: d :: rest => do
      let a ← hexValue a
      let b ← hexValue b
      let c ← hexValue c
      let d ← hexValue d
      some (((a * 16 + b) * 16 + c) * 16 + d, rest)
  | _ => none

def isHighSurrogate (n : Nat) : Bool := 0xD800 ≤ n && n ≤ 0xDBFF

def isLowSurrogate (n : Nat) : Bool := 0xDC00 ≤ n && n ≤ 0xDFFF

/-- The character of a numeric escape, after the `u`. A high surrogate needs the escape of a low
one right behind it. -/
def readUnicode (cs : List Char) : Option (Char × List Char) := do
  let (n, rest) ← readHex4 cs
  if isHighSurrogate n then
    let rest ← expect "\\u" rest
    let (low, rest) ← readHex4 rest
    if isLowSurrogate low then
      some (Char.ofNat (0x10000 + (n - 0xD800) * 0x400 + (low - 0xDC00)), rest)
    else none
  else if isLowSurrogate n then none
  else some (Char.ofNat n, rest)

/-- The character that an escape stands for, after the backslash. -/
def readEscape : Reader Char
  | 'u' :: rest => readUnicode rest
  | '"' :: rest => some ('"', rest)
  | '\\' :: rest => some ('\\', rest)
  | '/' :: rest => some ('/', rest)
  | 'b' :: rest => some ('\x08', rest)
  | 'f' :: rest => some ('\x0c', rest)
  | 'n' :: rest => some ('\n', rest)
  | 'r' :: rest => some ('\r', rest)
  | 't' :: rest => some ('\t', rest)
  | _ => none

/-- The characters of a string up to its closing quote. -/
def readChars : Nat → Reader (List Char)
  | 0, _ => none
  | _ + 1, [] => none
  | fuel + 1, c :: rest =>
      if c = '"' then some ([], rest)
      else if c = '\\' then do
        let (c, rest) ← readEscape rest
        let (cs, rest) ← readChars fuel rest
        some (c :: cs, rest)
      else if c.toNat < 0x20 then none
      else do
        let (cs, rest) ← readChars fuel rest
        some (c :: cs, rest)

/-- A string, after its opening quote. -/
def readString (bound : Nat) : Reader String := fun cs => do
  let (content, rest) ← readChars bound cs
  some (String.ofList content, rest)

/-- The whole part of a number: no zero in front of other digits. -/
def readWhole (cs : List Char) : Option (List Char × List Char) :=
  let (digits, rest) := spanAsciiDigits cs
  match digits with
  | [] => none
  | '0' :: _ :: _ => none
  | _ => some (digits, rest)

/-- The digits after a point, if there is one. -/
def readFraction : List Char → Option (Option (List Char) × List Char)
  | '.' :: rest =>
      let (digits, rest) := spanAsciiDigits rest
      if digits.isEmpty then none else some (some digits, rest)
  | cs => some (none, cs)

/-- The power of ten, if there is one. -/
def readExponent : List Char → Option (Option Int × List Char)
  | c :: rest =>
      if c = 'e' ∨ c = 'E' then
        let (negative, rest) := splitSign rest
        let (digits, rest) := spanAsciiDigits rest
        if digits.isEmpty then none
        else some (some (Binary64.withSign negative (digitsValue digits)), rest)
      else some (none, c :: rest)
  | [] => some (none, [])

/-- Does a whole number keep its digits? Those below -2^63 and from 2^64 on become numbers of the
64-bit format. -/
def isMachineInteger (n : Int) : Bool := Binary64.minInt64 ≤ n && n < 0x10000000000000000

/-- A number without fraction and exponent. There is no whole number minus zero. -/
def wholeValue (negative : Bool) (n : Nat) : Value :=
  let signed := Binary64.withSign negative n
  if isMachineInteger signed && !(negative && n == 0) then .integer signed
  else .real (.ofDecimal negative n 0)

/-- A number of the format; one too large for it is refused. -/
def finiteValue? : Value → Option Value
  | .real x => if x.isFinite then some (.real x) else none
  | v => some v

def readNumber (cs : List Char) : Option (Value × List Char) := do
  let (negative, body) := match cs with
    | '-' :: rest => (true, rest)
    | _ => (false, cs)
  let (whole, rest) ← readWhole body
  let (fraction, rest) ← readFraction rest
  let (power, rest) ← readExponent rest
  let value :=
    match fraction, power with
    | none, none => wholeValue negative (digitsValue whole)
    | _, _ =>
        let fraction := fraction.getD []
        let d : Decimal := ⟨digitsValue (whole ++ fraction), power.getD 0 - fraction.length⟩
        .real (d.toBinary64 negative)
  let value ← finiteValue? value
  some (value, rest)

/-- A value that holds no others. -/
def readScalar (bound : Nat) : Reader Value
  | '"' :: rest => do
      let (s, rest) ← readString bound rest
      some (.string s, rest)
  | 't' :: rest => (expect "rue" rest).map (.bool true, ·)
  | 'f' :: rest => (expect "alse" rest).map (.bool false, ·)
  | 'n' :: rest => (expect "ull" rest).map (.null, ·)
  | cs => readNumber cs

/-- The items of an array after the first, up to the closing bracket. -/
def readItems (item : Reader Value) : Nat → Reader (List Value)
  | 0, _ => none
  | fuel + 1, cs =>
      match skipSpace cs with
      | ']' :: rest => some ([], rest)
      | ',' :: rest => do
          let (v, rest) ← item (skipSpace rest)
          let (vs, rest) ← readItems item fuel rest
          some (v :: vs, rest)
      | _ => none

def readArray (bound : Nat) (item : Reader Value) : Reader (List Value) := fun cs =>
  match skipSpace cs with
  | ']' :: rest => some ([], rest)
  | cs => do
      let (v, rest) ← item cs
      let (vs, rest) ← readItems item bound rest
      some (v :: vs, rest)

/-- A name, a colon and a value. -/
def readMember (bound : Nat) (item : Reader Value) : Reader (String × Value)
  | '"' :: rest => do
      let (name, rest) ← readString bound rest
      let rest ← expect ":" (skipSpace rest)
      let (v, rest) ← item (skipSpace rest)
      some ((name, v), rest)
  | _ => none

/-- The members of an object after the first, up to the closing brace. -/
def readMembers (member : Reader (String × Value)) : Nat → Reader (List (String × Value))
  | 0, _ => none
  | fuel + 1, cs =>
      match skipSpace cs with
      | '}' :: rest => some ([], rest)
      | ',' :: rest => do
          let (m, rest) ← member (skipSpace rest)
          let (ms, rest) ← readMembers member fuel rest
          some (m :: ms, rest)
      | _ => none

def readObject (bound : Nat) (member : Reader (String × Value)) :
    Reader (List (String × Value)) := fun cs =>
  match skipSpace cs with
  | '}' :: rest => some ([], rest)
  | cs => do
      let (m, rest) ← member cs
      let (ms, rest) ← readMembers member bound rest
      some (m :: ms, rest)

/-- A value in which arrays and objects nest at most `depth` deep. -/
def readValue (bound : Nat) : Nat → Reader Value
  | 0, cs => readScalar bound cs
  | depth + 1, cs =>
      let item := readValue bound depth
      match cs with
      | '[' :: rest => (readArray bound item rest).map fun (vs, rest) => (.array vs, rest)
      | '{' :: rest =>
          (readObject bound (readMember bound item) rest).map fun (ms, rest) => (.object ms, rest)
      | _ => readScalar bound cs

/-- How deep arrays and objects may nest. -/
def maxDepth : Nat := 127

/-- The value that a whole text holds. -/
def read (text : String) : Option Value := do
  let cs := text.toList
  let (value, rest) ← readValue (cs.length + 1) maxDepth (skipSpace cs)
  if (skipSpace rest).isEmpty then some value else none

end BlockScript.Json
