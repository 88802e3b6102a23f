import BlockScript.Xml.Character

/-! # A place in a document

The characters still to be read, and what the place is inside of. The text of an entity is read in
the place of its reference, before the rest of the document. -/

namespace BlockScript.Xml

/-- What a place is inside of; which characters are markup depends on it. -/
inductive Context where
  | content
  | doctype
  /-- A declaration inside a document type. -/
  | declaration
  /-- A quoted text of such a declaration. -/
  | literal (quote : Char)
  | comment
  | cdata
  | instruction
deriving DecidableEq, Repr

structure Cursor where
  /-- What is left of the entities being read. -/
  pending : List Char := []
  source : List Char
  /-- The entities opened since a character was last taken from the document. -/
  expansions : Nat := 0
  context : Context := .content
  /-- Has a document type begun that is still open? -/
  inDoctype : Bool := false
  /-- No more characters than this are left. -/
  bound : Nat := pending.length + source.length
deriving Repr

/-- A reader takes something off the front, or refuses it. -/
abbrev Reader (α : Type) := Cursor → Option (α × Cursor)

namespace Cursor

/-- How many entities may be opened one in another. -/
def maxExpansions : Nat := 10

/-- How many characters of entities may be waiting when another one is opened. -/
def maxPending : Nat := 1000000

def next? (c : Cursor) : Option (Char × Cursor) :=
  match c.pending, c.source with
  | ch :: rest, _ => some (ch, { c with pending := rest })
  | [], ch :: rest => some (ch, { c with source := rest, expansions := 0 })
  | [], [] => none

/-- Put characters back that were read. -/
def unread (cs : List Char) (c : Cursor) : Cursor := { c with pending := cs ++ c.pending }

/-- What is put back is read again. -/
@[simp] theorem next?_unread (ch : Char) (cs : List Char) (c : Cursor) :
    (c.unread (ch :: cs)).next? = some (ch, c.unread cs) := rfl

/-- Read the text of an entity next. -/
def expand? (text : List Char) (c : Cursor) : Option Cursor :=
  if text.isEmpty then some c
  else if maxExpansions ≤ c.expansions || maxPending < c.pending.length then none
  else some { c with
    pending := text ++ c.pending
    expansions := c.expansions + 1
    bound := text.length + c.bound }

/-- What follows a fixed word. -/
def skipWord? (c : Cursor) : List Char → Option Cursor
  | [] => some c
  | w :: ws =>
      match c.next? with
      | some (ch, rest) => if ch = w then skipWord? rest ws else none
      | none => none

def enter (context : Context) (c : Cursor) : Cursor := { c with context }

/-- Return from a piece of markup to what stands around it. -/
def leave (c : Cursor) : Cursor := c.enter (if c.inDoctype then .doctype else .content)

end Cursor

end BlockScript.Xml
