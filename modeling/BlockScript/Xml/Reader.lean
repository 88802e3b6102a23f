import BlockScript.Xml.Content
import BlockScript.Xml.Declaration

/-! # Reading XML

A document is an optional declaration, then comments, instructions and a document type, then
elements, of which the first one is what the document holds. -/

namespace BlockScript.Xml

/-- A bound on the steps that reading takes: entities are limited in number and length. -/
def stepBound (cs : List Char) : Nat := (cs.length + 1) * 0x10000000000

def byteOrderMark : Char := '\ufeff'

/-- What the declaration of a document makes of it: the version, and the characters behind the
declaration. A document with a byte order mark may name no encoding but the mark's own. -/
def splitDeclaration (marked : Bool) (cs : List Char) : Option (Version × List Char) :=
  match Declaration.read? { source := cs } with
  | none => none
  | some none => some (.v10, cs)
  | some (some (d, c)) =>
      let encoding := d.encoding.getD .utf8
      if marked && encoding ≠ .utf8 then none
      else (encoding.decode? c.source).map fun rest => (d.version, rest)

/-- The first element of a document. -/
def read (text : String) : Option Element :=
  let (marked, cs) := match text.toList with
    | c :: rest => if c = byteOrderMark then (true, rest) else (false, c :: rest)
    | [] => (false, [])
  match splitDeclaration marked cs with
  | none => none
  | some (version, rest) => Content.read (stepBound rest) { version } { source := rest }

end BlockScript.Xml
