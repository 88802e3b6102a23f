import BlockScript.Text.Range

/-! # Characters of XML

Which characters may occur in a document, in names, and as white space. -/

namespace BlockScript.Xml

/-- The version of a document; the later one admits more control characters. -/
inductive Version where
  | v10
  | v11
deriving DecidableEq, Repr

def isSpace (c : Char) : Bool := c == ' ' || c == '\t' || c == '\n' || c == '\r'

def nameStartRanges : List (Nat × Nat) :=
  [(0x3A, 0x3A), (0x41, 0x5A), (0x5F, 0x5F), (0x61, 0x7A), (0xC0, 0xD6), (0xD8, 0xF6),
    (0xF8, 0x2FF), (0x370, 0x37D), (0x37F, 0x1FFF), (0x200C, 0x200D), (0x2070, 0x218F),
    (0x2C00, 0x2FEF), (0x3001, 0xD7FF), (0xF900, 0xFDCF), (0xFDF0, 0xFFFD), (0x10000, 0xEFFFF)]

def nameRestRanges : List (Nat × Nat) :=
  [(0x2D, 0x2E), (0x30, 0x39), (0xB7, 0xB7), (0x300, 0x36F), (0x203F, 0x2040)]

def isNameStart (c : Char) : Bool := Text.inRanges nameStartRanges c

def isNameChar (c : Char) : Bool := isNameStart c || Text.inRanges nameRestRanges c

/-- Characters that a reference may stand for. -/
def Version.admits (v : Version) (c : Char) : Bool :=
  let upper := (0x20 ≤ c.toNat && c.toNat ≤ 0xFFFD) || 0x10000 ≤ c.toNat
  match v with
  | v10 => isSpace c || upper
  | v11 => 1 ≤ c.toNat && c.toNat < 0x20 || upper

/-- Control characters that a document of the later version has to write as references. -/
def restrictedRanges : List (Nat × Nat) :=
  [(0x01, 0x08), (0x0B, 0x0C), (0x0E, 0x1F), (0x7F, 0x84), (0x86, 0x9F)]

/-- Characters that may stand for themselves. -/
def Version.admitsRaw (v : Version) (c : Char) : Bool :=
  match v with
  | v10 => v.admits c
  | v11 => v.admits c && !Text.inRanges restrictedRanges c

end BlockScript.Xml
