import BlockScript.Xml.Tag

/-! # Document types

Of a document type only the entities that it defines matter. The first definition of an entity
counts, and one that lies outside the document is empty. -/

namespace BlockScript.Xml

/-- The name of an entity behind a percent sign, up to the semicolon. -/
def readParameter (entities : Entities) : Reader (List Char) := fun c => do
  let ((name, t), c) ← c.span isNameChar
  if t.isSemicolon then
    let text ← entities.get? (String.ofList ('%' :: name))
    some (text, c)
  else none

/-- The number of a character up to the semicolon. -/
def readNumberAux (v : Version) : Nat → List Char → Reader (List Char)
  | 0, _, _ => none
  | fuel + 1, acc, c =>
      match c.token? with
      | some (t, c) =>
          if t.isSemicolon then some (acc.reverse, c)
          else
            match t with
            | .character ch => if v.admits ch then readNumberAux v fuel (ch :: acc) c else none
            | _ => none
      | none => none

/-- What an ampersand in the text of an entity stands for: a character by number, or itself and
the character after it. -/
def readEntityReference (v : Version) : Reader (List Char) := fun c => do
  let (t, c) ← c.token?
  let ch ← t.char?
  if ch = '#' then
    let (number, c) ← readNumberAux v (c.bound + 1) [] c
    let ch ← numbered? v number
    some ([ch], c)
  else if v.admits ch then some (['&', ch], c)
  else none

/-- How many bytes the text of an entity may have, its last character apart. -/
def maxEntitySize : Nat := 1000000

/-- What a token in the text of an entity of some size stands for. -/
def readEntityPiece (v : Version) (entities : Entities) (size : Nat) (t : Token) :
    Reader (List Char) := fun c =>
  match t with
  | .quote ch => some ([ch], c)
  | .referenceStart => readEntityReference v c
  | .character ch =>
      if ch = '&' then readEntityReference v c
      else if ch = '%' then readParameter entities c
      else if v.admits ch ∧ size ≤ maxEntitySize then some ([ch], c)
      else none
  | _ => none

/-- The text of an entity up to its closing quote. -/
def readEntityTextAux (v : Version) (entities : Entities) (quote : Char) :
    Nat → Nat → List Char → Reader (List Char)
  | 0, _, _, _ => none
  | fuel + 1, size, acc, c =>
      match c.token? with
      | none => none
      | some (t, c) =>
          if t = .quote quote then some (acc.reverse, c)
          else
            match readEntityPiece v entities size t c with
            | none => none
            | some (text, c) =>
                readEntityTextAux v entities quote fuel
                  (size + (String.ofList text).utf8ByteSize) (text.reverse ++ acc) c

def readEntityText (v : Version) (entities : Entities) (quote : Char) : Reader (List Char) :=
  fun c => readEntityTextAux v entities quote (c.bound + 1) 0 [] c

/-- The name of the entity that a declaration defines. -/
def readEntityName : Reader String := fun c => do
  let (t, c) ← c.afterSpace
  let (sign, t, c) ← if t = .character '%' then
      (c.afterSpace).map fun (t, c) => (['%'], t, c)
    else some ([], t, c)
  let first ← t.char?
  let ((rest, t), c) ← c.span isNameChar
  let name := sign ++ first :: rest
  if isNameStart first && t.isSpace && isShortName name then some (String.ofList name, c)
  else none

/-- A definition of an entity, after its keyword. -/
def readEntity (v : Version) (entities : Entities) : Reader Entities := fun c => do
  let (name, c) ← readEntityName c
  match c.afterSpace with
  | some (.quote quote, c) =>
      let (text, c) ← readEntityText v entities quote c
      some (entities.putNew name text, c)
  | some (.character ch, c) =>
      if ch = 'S' ∨ ch = 'P' then some (entities.putNew name [], c) else none
  | _ => none

/-- A declaration, after its opening mark. Only definitions of entities are looked into. -/
def readDeclaration (v : Version) (entities : Entities) : Reader Entities := fun c => do
  let ((word, t), c) ← c.span fun ch => 'A' ≤ ch && ch ≤ 'Z'
  if !t.isSpace then none
  else
    let (entities, c) ←
      if word = "ENTITY".toList then readEntity v entities c
      else if word = "ELEMENT".toList ∨ word = "ATTLIST".toList ∨ word = "NOTATION".toList then
        some (entities, c)
      else none
    let (_, c) ← c.until? (fun _ => true) .tagEnd
    some (entities, c)

/-- A document type after its keyword, up to the bracket that ends it. -/
def readDoctype (v : Version) : Nat → Entities → Reader Entities
  | 0, _, _ => none
  | fuel + 1, entities, c =>
      match c.token? with
      | none => none
      | some (t, c) =>
          match t with
          | .tagEnd => some (entities, c)
          | .declarationStart =>
              match readDeclaration v entities c with
              | some (entities, c) => readDoctype v fuel entities c
              | none => none
          | .commentStart =>
              match c.until? (fun _ => true) .commentEnd with
              | some (_, c) => readDoctype v fuel entities c
              | none => none
          | .quote quote =>
              match c.until? (fun _ => true) (.quote quote) with
              | some (_, c) => readDoctype v fuel entities c
              | none => none
          | .cdataStart | .cdataEnd => none
          | .character ch =>
              if ch = '%' then
                match (readParameter entities c).bind fun (text, c) => c.expand? text with
                | some c => readDoctype v fuel entities c
                | none => none
              else readDoctype v fuel entities c
          | _ => readDoctype v fuel entities c

end BlockScript.Xml
