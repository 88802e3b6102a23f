import BlockScript.Xml.Reference

/-! # Tags

Names, attributes and the namespaces that they declare. A prefix has to be declared on the
element itself or around it; apart from that namespaces are ignored. -/

namespace BlockScript.Xml

/-- A name, perhaps behind the prefix of a namespace. -/
structure QName where
  space : Option String
  name : String
deriving DecidableEq, Repr

/-- A name from its characters; one colon may separate the prefix. -/
def QName.ofChars? (cs : List Char) : Option QName :=
  let head := cs.takeWhile (· ≠ ':')
  match cs.dropWhile (· ≠ ':') with
  | [] => if head.isEmpty then none else some ⟨none, String.ofList head⟩
  | _ :: tail =>
      if head.isEmpty || tail.isEmpty || tail.contains ':' then none
      else some ⟨some (String.ofList head), String.ofList tail⟩

/-- How many bytes a name may have, its last character apart. -/
def maxNameSize : Nat := 0x40000

def isShortName (cs : List Char) : Bool := (String.ofList cs.dropLast).utf8ByteSize ≤ maxNameSize

/-- Does a name begin as names do? The empty one does. -/
def beginsName (cs : List Char) : Bool := cs.head?.all isNameStart

/-- The name that begins with some characters, and the token behind it. -/
def readQName (begun : List Char) : Reader (QName × Token) := fun c => do
  let ((rest, t), c) ← c.span isNameChar
  let cs := begun ++ rest
  if beginsName cs && isShortName cs then
    let name ← QName.ofChars? cs
    some ((name, t), c)
  else none

/-- May a token stand in the value of an attribute? -/
def mayBeInValue (v : Version) (t : Token) : Bool :=
  t != .tagStart && t != .instructionStart && t.allows v.admitsRaw

def readValueAux (v : Version) (entities : Entities) (quote : Char) :
    Nat → List Char → Reader (List Char)
  | 0, _, _ => none
  | fuel + 1, acc, c =>
      match c.token? with
      | none => none
      | some (t, c) =>
          if t = .quote quote then some (acc.reverse, c)
          else if t = .referenceStart then
            match readReference v entities c with
            | none => none
            | some (.character ch, c) => readValueAux v entities quote fuel (ch :: acc) c
            | some (.entity text, c) =>
                readValueAux v entities quote fuel (text.reverse ++ acc) c
          else if mayBeInValue v t then
            readValueAux v entities quote fuel (t.text.reverse ++ acc) c
          else none

/-- The value of an attribute, after the equals sign. Most markup has no meaning in it. -/
def readAttributeValue (v : Version) (entities : Entities) : Reader String := fun c =>
  match c.afterSpace with
  | some (.quote quote, c) =>
      (readValueAux v entities quote (c.bound + 1) [] c).map fun (cs, c) => (String.ofList cs, c)
  | _ => none

/-- An equals sign, where white space may stand in front; its first token is given. -/
def readEquals (t : Token) (c : Cursor) : Option Cursor :=
  if t = .equals then some c
  else if t.isSpace then
    match c.afterSpace with
    | some (.equals, c) => some c
    | _ => none
  else none

/-- What a start tag says. -/
structure StartTag where
  attributes : List (QName × String) := []
  /-- The prefixes that it declares. -/
  declared : List String := []

/-- A namespace that every document knows. -/
def standardNamespace (path : String) : String := "/".intercalate ["http:", "", "www.w3.org", path]

def xmlNamespace : String := standardNamespace "XML/1998/namespace"

def xmlnsNamespace : String := standardNamespace "2000/xmlns/"

/-- May a prefix be declared to stand for a namespace? -/
def mayDeclare (space value : String) : Bool :=
  space != "xmlns" && (space != "xml" || value == xmlNamespace) && value != ""

/-- May a namespace be the default one? -/
def mayBeDefault (value : String) : Bool :=
  ["xmlns", "xml", xmlNamespace, xmlnsNamespace].all (· != value)

/-- Add an attribute, or take in the namespace that it declares. -/
def StartTag.add? (tag : StartTag) (name : QName) (value : String) : Option StartTag :=
  if name.space = some "xmlns" then
    if mayDeclare name.name value then some { tag with declared := name.name :: tag.declared }
    else none
  else if name = ⟨none, "xmlns"⟩ then (if mayBeDefault value then some tag else none)
  else some { tag with attributes := tag.attributes ++ [(name, value)] }

/-- How many attributes a tag may have. -/
def maxAttributes : Nat := 0x10000

/-- An attribute and its value, after the first character of the name. -/
def readAttribute (v : Version) (entities : Entities) (tag : StartTag) (first : Char) :
    Reader StartTag := fun c => do
  let ((name, t), c) ← readQName [first] c
  if tag.attributes.any fun a => a.1 = name then none
  else
    let c ← readEquals t c
    let (value, c) ← readAttributeValue v entities c
    let tag ← tag.add? name value
    if tag.attributes.length ≤ maxAttributes then some (tag, c) else none

/-- The rest of a start tag after its name; true if it is an empty-element tag. The first token
of the rest is given. White space stands in front of each attribute. -/
def readAttributes (v : Version) (entities : Entities) :
    Nat → StartTag → Token → Reader (StartTag × Bool)
  | 0, _, _, _ => none
  | fuel + 1, tag, t, c =>
      match if t.isSpace then c.afterSpace else some (t, c) with
      | some (.tagEnd, c) => some ((tag, false), c)
      | some (.emptyTagEnd, c) => some ((tag, true), c)
      | some (.character ch, c) =>
          if t.isSpace then
            match readAttribute v entities tag ch c with
            | none => none
            | some (tag, c) =>
                match c.token? with
                | some (t, c) => readAttributes v entities fuel tag t c
                | none => none
          else none
      | _ => none

/-- Prefixes with a meaning of their own, which no element may have. -/
def isReservedSpace (space : String) : Bool := space == "xml" || space == "xmlns"

def isBound (spaces : List String) (space : String) : Bool :=
  isReservedSpace space || spaces.contains space

/-- Is the prefix of an element bound? -/
def isBoundElement (spaces : List String) (name : QName) : Bool :=
  match name.space with
  | none => true
  | some space => !isReservedSpace space && spaces.contains space

/-- Are the prefixes of all attributes bound? -/
def areBound (spaces : List String) (tag : StartTag) : Bool :=
  tag.attributes.all fun a => (a.1.space.map (isBound spaces)).getD true

/-- The attributes by their names alone; of two of one name the later stays. -/
def StartTag.table (tag : StartTag) : Table String :=
  Table.ofWrites (tag.attributes.map fun a => (a.1.name, a.2))

end BlockScript.Xml
