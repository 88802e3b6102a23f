import BlockScript.Xml.Doctype
import BlockScript.Xml.Element

/-! # Content

Elements, their text, and what stands between them. The first element is what a document holds;
others may follow it, but no text stands outside of them. -/

namespace BlockScript.Xml

/-- An element whose end tag is still to come. -/
structure Frame where
  name : QName
  attributes : Table String
  /-- The prefixes bound inside it. -/
  spaces : List String
  text : List Char := []
  children : List Element := []

namespace Frame

def close (f : Frame) : Element :=
  { name := f.name.name
    attributes := f.attributes
    text := String.ofList f.text
    children := f.children.reverse }

end Frame

/-- The state between two pieces of content. -/
structure Content where
  version : Version
  entities : Entities := []
  /-- The open elements, the innermost first. -/
  frames : List Frame := []
  /-- The characters since the last markup, the latest first. -/
  run : List Char := []
  /-- Is the run to be dropped? -/
  isBlank : Bool := true
  /-- May a document type still come? -/
  admitsDoctype : Bool := true
  root : Option Element := none

namespace Content

def isOutside (s : Content) : Bool := s.frames.isEmpty

/-- Add text that stands as it is. -/
def addText (s : Content) (cs : List Char) : Content :=
  match s.frames with
  | [] => s
  | f :: outer => { s with frames := { f with text := f.text ++ cs } :: outer }

/-- End a run of characters. -/
def flush (s : Content) : Content :=
  { (if s.isBlank then s else s.addText s.run.reverse) with run := [], isBlank := true }

/-- A character of the run. -/
def readCharacter (s : Content) (ch : Char) : Option Content :=
  if s.isOutside then (if isSpace ch then some s else none)
  else if s.version.admitsRaw ch then
    some { s with run := ch :: s.run, isBlank := s.isBlank && isSpace ch }
  else none

/-- A sign that has no meaning here stands for itself. -/
def readSign (s : Content) (t : Token) : Option Content :=
  if s.isOutside then none
  else some { s with run := t.text.reverse ++ s.run, isBlank := false }

/-- Has the run characters, and white space alone? -/
def hasSpaceAlone (s : Content) : Bool := !s.run.isEmpty && s.run.all isSpace

/-- A reference in the content, after the ampersand. The text of an entity is read as content in
its turn. White space that a reference brings in is kept, if nothing stands in front of it. -/
def readReference (s : Content) : Reader Content := fun c => do
  let (reference, c) ← Xml.readReference s.version s.entities c
  let (s, c) ← match reference with
    | .character ch => some ({ s with run := ch :: s.run }, c)
    | .entity text => (c.expand? text).map fun c => (s, c)
  some ({ s with isBlank := s.isBlank && s.hasSpaceAlone }, c)

/-- Put a finished element where it belongs. -/
def addElement (s : Content) (e : Element) : Content :=
  match s.frames with
  | [] => { s with root := s.root.or (some e) }
  | f :: outer => { s with frames := { f with children := e :: f.children } :: outer }

def spaces (s : Content) : List String := (s.frames.head?.map Frame.spaces).getD []

/-- A start tag, after its opening bracket. -/
def readStart (s : Content) : Reader Content := fun c => do
  let ((name, t), c) ← readQName [] c
  let ((tag, isEmpty), c) ← readAttributes s.version s.entities (c.bound + 1) {} t c
  let spaces := tag.declared ++ s.spaces
  if isBoundElement spaces name && areBound spaces tag then
    let frame : Frame := { name, attributes := tag.table, spaces }
    let s := { s with admitsDoctype := false }
    if isEmpty then some (s.addElement frame.close, c)
    else some ({ s with frames := frame :: s.frames }, c)
  else none

/-- An end tag, after its opening mark. -/
def readEnd (s : Content) : Reader Content := fun c => do
  let ((name, t), c) ← readQName [] c
  let (t, c) ← if t.isSpace then c.afterSpace else some (t, c)
  match s.frames with
  | [] => none
  | f :: outer =>
      if f.name = name ∧ t = .tagEnd then
        some ({ s with frames := outer }.addElement f.close, c)
      else none

/-- An instruction, after its opening mark. No instruction is called like a declaration. -/
def skipInstruction (s : Content) : Reader Content := fun c => do
  let ((name, t), c) ← c.span isNameChar
  if !beginsName name || !isShortName name || name.map Char.toLower = "xml".toList then none
  else if t = .instructionEnd then (if name.isEmpty then none else some (s, c))
  else if t.isSpace then
    let (_, c) ← c.until? s.version.admits .instructionEnd
    some (s, c)
  else none

def skipComment (s : Content) : Reader Content := fun c => do
  let (_, c) ← c.until? s.version.admits .commentEnd
  some (s, c)

/-- A section of plain text, after its opening mark. It stands apart from the runs around it, but
white space behind it is kept if it has any other character. -/
def readSection (s : Content) : Reader Content := fun c => do
  let (cs, c) ← c.until? s.version.admits .cdataEnd
  some ({ s.addText cs with isBlank := cs.all isSpace }, c)

/-- A document type, after its keyword. -/
def readDoctype (fuel : Nat) (s : Content) : Reader Content := fun c => do
  let (entities, c) ← Xml.readDoctype s.version fuel s.entities c
  some ({ s with entities, admitsDoctype := false }, c)

/-- One piece of content, which begins with a token. -/
def readToken (fuel : Nat) (s : Content) (t : Token) : Reader Content := fun c =>
  match t with
  | .character ch => (s.readCharacter ch).map fun s => (s, c)
  | .tagStart => s.flush.readStart c
  | .endTagStart => s.flush.readEnd c
  | .instructionStart => s.flush.skipInstruction c
  | .commentStart => s.flush.skipComment c
  | .cdataStart => if s.isOutside then none else s.flush.readSection c
  | .doctypeStart => if s.admitsDoctype then s.flush.readDoctype fuel c else none
  | .referenceStart => if s.isOutside then none else s.readReference c
  | .cdataEnd | .declarationStart => none
  | _ => (s.readSign t).map fun s => (s, c)

/-- The content up to the end of the document. -/
def read : Nat → Content → Cursor → Option Element
  | 0, _, _ => none
  | fuel + 1, s, c =>
      if c.next?.isNone then (if s.isOutside && c.context = .content then s.root else none)
      else
        match c.token? with
        | none => none
        | some (t, c) =>
            match s.readToken fuel t c with
            | some (s, c) => read fuel s c
            | none => none

end Content

end BlockScript.Xml
