import BlockScript.Text.Digit

/-! # Names

Variables and procedures keep the names that the user gave them as far as the script allows.
A name is first made an identifier; if that is reserved or taken, a number is put behind it. -/

namespace BlockScript

/-- What a name is looked up as. Both draw from one pool of taken names. -/
inductive NameCategory where
  | variableName
  | procedureName
deriving DecidableEq, Repr

/-- Names that mean something in the script, or may come to. -/
def reservedWords : List String :=
  ["true", "false", "let", "const", "if", "else", "switch", "do", "while", "until", "loop",
    "for", "in", "continue", "break", "return", "throw", "try", "catch", "import", "export",
    "as", "global", "private", "fn", "this", "is", "null",
    "var", "static", "shared", "goto", "exit", "match", "case", "public", "protected", "new",
    "use", "with", "module", "package", "super", "thread", "spawn", "go", "sync", "async",
    "await", "yield", "default", "void", "dynamic", "List", "String", "int", "num", "bool",
    "print", "debug", "eval", "call", "curry", "type_of", "is_def_var", "is_def_fn", "Fn",
    "Math", "Html"]

namespace Names

def isAsciiAlphanumeric (c : Char) : Bool :=
  Text.isAsciiDigit c || 'a' ≤ c && c ≤ 'z' || 'A' ≤ c && c ≤ 'Z'

def isAscii (c : Char) : Bool := c.toNat < 128

/-- A hexadecimal digit, with capital letters. -/
def hexDigit (n : Nat) : Char :=
  if n < 10 then Char.ofNat (n + '0'.toNat) else Char.ofNat (n - 10 + 'A'.toNat)

/-- A byte as an underscore and two hexadecimal digits. -/
def byteCode (b : UInt8) : List Char := ['_', hexDigit (b.toNat / 16), hexDigit (b.toNat % 16)]

/-- What stands for a character in an identifier. A character outside ASCII is spelled by the
bytes that encode it. -/
def safeChar (c : Char) : List Char :=
  if isAsciiAlphanumeric c then [c]
  else if isAscii c then ['_']
  else (String.utf8EncodeChar c).flatMap byteCode

/-- An identifier does not start with a digit. -/
def guardDigit (cs : List Char) : List Char :=
  match cs with
  | [] => []
  | c :: _ => if Text.isAsciiDigit c then "my_".toList ++ cs else cs

/-- The identifier made from a name. -/
def safeName (name : String) : String :=
  if name = "" then "unnamed" else String.ofList (guardDigit (name.toList.flatMap safeChar))

/-- The candidates for a name, in the order in which they are tried. -/
def candidate (base : String) : Nat → String
  | 0 => base
  | n + 1 => base ++ toString (n + 2)

/-- The first candidate from the `n`-th on that is not occupied, among as many as `fuel`
allows and one more. -/
def firstFree (occupied : String → Bool) (base : String) : Nat → Nat → String
  | 0, n => candidate base n
  | fuel + 1, n =>
      if occupied (candidate base n) then firstFree occupied base fuel (n + 1)
      else candidate base n

end Names

/-- The names given out, and for each name looked up the one that was given for it. -/
structure Names where
  taken : List String := []
  given : List ((NameCategory × String) × String) := []
deriving DecidableEq, Repr

namespace Names

def isOccupied (names : Names) (name : String) : Bool :=
  names.taken.contains name || reservedWords.contains name

/-- The name that would be given out next for a raw one. There are more candidates than
occupied names, so one of them is free. -/
def fresh (names : Names) (raw : String) : String :=
  firstFree names.isOccupied (safeName raw) (names.taken.length + reservedWords.length) 0

def lookup (names : Names) (category : NameCategory) (raw : String) : Option String :=
  (names.given.find? fun entry => entry.1 = (category, raw)).map (·.2)

/-- A name that was never given out before. -/
def distinct (names : Names) (raw : String) : String × Names :=
  let name := names.fresh raw
  (name, { names with taken := name :: names.taken })

/-- The name of a variable or procedure: always the same one for the same raw name. -/
def get (names : Names) (category : NameCategory) (raw : String) : String × Names :=
  match names.lookup category raw with
  | some name => (name, names)
  | none =>
      let (name, names) := names.distinct raw
      (name, { names with given := ((category, raw), name) :: names.given })

/-- Forget what was given out. -/
def reset (names : Names) : Names := { names with taken := [], given := [] }

@[simp] theorem lookup_empty (category : NameCategory) (raw : String) :
    lookup {} category raw = none := rfl

theorem get_of_lookup {names : Names} {category : NameCategory} {raw name : String}
    (h : names.lookup category raw = some name) : names.get category raw = (name, names) := by
  simp [get, h]

/-- A name once looked up is found again. -/
theorem lookup_get (names : Names) (category : NameCategory) (raw : String) :
    (names.get category raw).2.lookup category raw = some (names.get category raw).1 := by
  cases h : names.lookup category raw with
  | some name => simp [get, h]
  | none =>
    simp only [get, h]
    simp [distinct, lookup]

example : safeName "é 2" = "_C3_A9_2" := by decide
example : safeName "2d" = "my_2d" := by decide

end Names

end BlockScript
