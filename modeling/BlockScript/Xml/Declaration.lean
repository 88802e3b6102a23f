import BlockScript.Xml.Tag

/-! # Declarations of documents

A document may begin by saying its version, its encoding, and whether it stands alone. -/

namespace BlockScript.Xml

/-- How the bytes of a document stand for characters. -/
inductive Encoding where
  | utf8
  | latin1
  | ascii
deriving DecidableEq, Repr

namespace Encoding

/-- Do two texts agree as far as the shorter one goes? The second may have capitals. -/
def agrees : List Char → List Char → Bool
  | l :: ls, c :: cs => l == c.toLower && agrees ls cs
  | _, _ => true

/-- The encoding of a name. Encodings by pairs of bytes are told by their first bytes alone, so a
document that names one is refused. -/
def ofName? (name : String) : Option Encoding :=
  let isOne := fun (known : List String) => known.any fun k => agrees k.toList name.toList
  if isOne ["utf-8", "utf8"] then some utf8
  else if isOne ["iso-8859-1", "latin1"] then some latin1
  else if isOne ["utf-16", "utf16"] then none
  else if isOne ["ascii", "us-ascii"] then some ascii
  else none

/-- The characters of a text whose bytes are read in this encoding. -/
def decode? (e : Encoding) (cs : List Char) : Option (List Char) :=
  match e with
  | utf8 => some cs
  | latin1 => some (cs.flatMap fun c => (String.utf8EncodeChar c).map fun b => Char.ofNat b.toNat)
  | ascii => if cs.all fun c => c.toNat < 128 then some cs else none

end Encoding

/-- What a declaration says about a document. -/
structure Declaration where
  version : Version := .v10
  encoding : Option Encoding := none

namespace Declaration

def versionNamed? : String → Option Version
  | "1.0" => some .v10
  | "1.1" => some .v11
  | _ => none

/-- The value of the setting that a word names. Its first letter, by which it is told from the
others, has been read; a prefix may stand between that and the rest. -/
def readSetting (v : Version) (word : String) : Reader String := fun c => do
  let ((name, t), c) ← readQName [] c
  if name.name.toList = word.toList.tail then
    let c ← readEquals t c
    readAttributeValue v [] c
  else none

/-- What follows a setting: the end, or white space and the beginning of the next one. -/
def readNext : Reader Token := fun c => do
  let (t, c) ← c.token?
  if t = .instructionEnd then some (t, c)
  else if t.isSpace then c.afterSpace
  else none

/-- The encoding, if a declaration names one here, and the token behind it. -/
def readEncoding (v : Version) (t : Token) : Reader (Option Encoding × Token) := fun c =>
  if t = .character 'e' then do
    let (name, c) ← readSetting v "encoding" c
    let encoding ← Encoding.ofName? name
    let (t, c) ← readNext c
    some ((some encoding, t), c)
  else some ((none, t), c)

/-- Whether other documents are needed, if a declaration says so here; the answer makes no
difference. -/
def skipStandalone (v : Version) (t : Token) : Reader Token := fun c =>
  if t = .character 's' then do
    let (answer, c) ← readSetting v "standalone" c
    if answer = "yes" ∨ answer = "no" then c.afterSpace else none
  else some (t, c)

/-- A declaration, after its keyword and the space behind it. -/
def read : Reader Declaration := fun c => do
  let (t, c) ← c.afterSpace
  if t = .character 'v' then
    let (number, c) ← readSetting .v10 "version" c
    let version ← versionNamed? number
    let (t, c) ← readNext c
    let ((encoding, t), c) ← readEncoding version t c
    let (t, c) ← skipStandalone version t c
    if t = .instructionEnd then some ({ version, encoding }, c) else none
  else none

/-- The declaration at the very start of a document, if there is one. -/
def read? (c : Cursor) : Option (Option (Declaration × Cursor)) :=
  match c.skipWord? "<?xml".toList with
  | none => some none
  | some c =>
      match c.next? with
      | none => some none
      | some (ch, c) =>
          if isSpace ch then (read (c.enter .instruction)).map some else some none

end Declaration

end BlockScript.Xml
