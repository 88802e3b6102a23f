import BlockScript.Xml.Cursor

/-! # Tokens

The signs of which markup consists, and the characters that stand for themselves. The same
character may be a sign in one context and plain in another. -/

namespace BlockScript.Xml

inductive Token where
  | character (c : Char)
  | tagStart
  | endTagStart
  | tagEnd
  | emptyTagEnd
  | instructionStart
  | instructionEnd
  | commentStart
  | commentEnd
  | cdataStart
  | cdataEnd
  | doctypeStart
  /-- The beginning of a declaration inside a document type. -/
  | declarationStart
  | referenceStart
  | referenceEnd
  | equals
  | quote (c : Char)
deriving DecidableEq, Repr

namespace Token

/-- The characters of a token. -/
def text : Token → List Char
  | character c => [c]
  | tagStart => ['<']
  | endTagStart => ['<', '/']
  | tagEnd => ['>']
  | emptyTagEnd => ['/', '>']
  | instructionStart => ['<', '?']
  | instructionEnd => ['?', '>']
  | commentStart => ['<', '!', '-', '-']
  | commentEnd => ['-', '-', '>']
  | cdataStart => ['<', '!', '[', 'C', 'D', 'A', 'T', 'A', '[']
  | cdataEnd => [']', ']', '>']
  | doctypeStart => ['<', '!', 'D', 'O', 'C', 'T', 'Y', 'P', 'E']
  | declarationStart => ['<', '!']
  | referenceStart => ['&']
  | referenceEnd => [';']
  | equals => ['=']
  | quote c => [c]

/-- The character of a token that stands for itself. -/
def char? : Token → Option Char
  | character c => some c
  | _ => none

def isSpace (t : Token) : Bool := t.char?.any Xml.isSpace

/-- Do the characters that stand for themselves meet a condition? -/
def allows (p : Char → Bool) (t : Token) : Bool := t.char?.all p

/-- A semicolon, be it a sign or not. -/
def isSemicolon (t : Token) : Bool := t = referenceEnd || t = character ';'

/-- Single characters that are signs among content and in instructions. -/
def ofChar (c : Char) : Token :=
  if c = '>' then tagEnd
  else if c = '=' then equals
  else if c = '&' then referenceStart
  else if c = ';' then referenceEnd
  else if c = '"' ∨ c = '\'' then quote c
  else character c

/-- The same in a document type, where an equals sign is none. -/
def ofDoctypeChar (c : Char) : Token := if c = '=' then character c else ofChar c

/-- A single character is the text of its token, sign or not. -/
@[simp] theorem text_ofChar (c : Char) : (ofChar c).text = [c] := by
  unfold ofChar
  repeat' split
  all_goals simp_all [text]

end Token

namespace Cursor

/-- What begins with an exclamation mark behind an angle bracket. -/
def declarationToken : Reader Token := fun c =>
  match c.next? with
  | none => none
  | some (ch, c) =>
      if ch = '-' then (c.skipWord? ['-']).map fun c => (.commentStart, c.enter .comment)
      else if ch = '[' then
        (c.skipWord? "CDATA[".toList).map fun c => (.cdataStart, c.enter .cdata)
      else if ch = 'D' then
        (c.skipWord? "OCTYPE".toList).map fun c =>
          (.doctypeStart, { c.enter .doctype with inDoctype := true })
      else if c.inDoctype ∧ (ch = 'E' ∨ ch = 'A' ∨ ch = 'N') then
        some (.declarationStart, (c.unread [ch]).enter .declaration)
      else none

/-- What begins with an angle bracket. -/
def markupToken : Reader Token := fun c =>
  match c.next? with
  | none => none
  | some (ch, c) =>
      if ch = '?' then some (.instructionStart, c.enter .instruction)
      else if ch = '/' then some (.endTagStart, c.leave)
      else if ch = '!' then c.declarationToken
      else if isSpace ch || isNameChar ch then some (.tagStart, (c.unread [ch]).leave)
      else none

/-- What begins with a slash: the end of an empty tag, or just the slash. -/
def slashToken : Reader Token := fun c =>
  match c.next? with
  | none => none
  | some (ch, c) =>
      if ch = '>' then some (.emptyTagEnd, c) else some (.character '/', c.unread [ch])

/-- What begins with a closing square bracket; two of them and an angle bracket are a sign. -/
def bracketToken : Reader Token := fun c =>
  match c.next? with
  | none => none
  | some (first, c) =>
      if first ≠ ']' then some (.character ']', c.unread [first])
      else
        match c.next? with
        | none => none
        | some (second, c) =>
            if second = '>' then some (.cdataEnd, c.enter .content)
            else some (.character ']', c.unread [first, second])

/-- What begins with a hyphen in a comment. Two of them have to end it. -/
def hyphenToken : Reader Token := fun c =>
  match c.next? with
  | none => none
  | some (ch, c) =>
      if ch = '-' then (c.skipWord? ['>']).map fun c => (.commentEnd, c.leave)
      else some (.character '-', c.unread [ch])

/-- What begins with a question mark in an instruction. -/
def questionToken : Reader Token := fun c =>
  match c.next? with
  | none => none
  | some (ch, c) =>
      if ch = '>' then some (.instructionEnd, c.leave)
      else some (.character '?', c.unread [ch])

/-- The token that begins with a character. No markup begins inside a declaration. -/
def tokenFrom (ch : Char) : Reader Token := fun c =>
  match c.context with
  | .content =>
      if ch = '<' then c.markupToken
      else if ch = '/' then c.slashToken
      else if ch = ']' then c.bracketToken
      else some (.ofChar ch, c)
  | .doctype =>
      if ch = '<' then c.markupToken
      else if ch = '>' then some (.tagEnd, { c.enter .content with inDoctype := false })
      else some (.ofDoctypeChar ch, c)
  | .declaration =>
      if ch = '<' then none
      else if ch = '>' then some (.tagEnd, c.enter .doctype)
      else if ch = '"' ∨ ch = '\'' then some (.quote ch, c.enter (.literal ch))
      else some (.ofDoctypeChar ch, c)
  | .literal quote =>
      if ch = quote then some (.quote ch, c.enter .declaration) else some (.character ch, c)
  | .comment => if ch = '-' then c.hyphenToken else some (.character ch, c)
  | .cdata => if ch = ']' then c.bracketToken else some (.character ch, c)
  | .instruction =>
      if ch = '?' then c.questionToken
      else if ch = '<' then some (.tagStart, c)
      else if ch = '/' then some (.endTagStart, c)
      else some (.ofChar ch, c)

def token? : Reader Token := fun c =>
  match c.next? with
  | none => none
  | some (ch, c) => c.tokenFrom ch

def afterSpaceAux : Nat → Reader Token
  | 0, _ => none
  | fuel + 1, c =>
      match c.token? with
      | some (t, c) => if t.isSpace then afterSpaceAux fuel c else some (t, c)
      | none => none

/-- The first token that is no space. -/
def afterSpace : Reader Token := fun c => c.afterSpaceAux (c.bound + 1)

def spanAux (p : Char → Bool) : Nat → List Char → Reader (List Char × Token)
  | 0, _, _ => none
  | fuel + 1, acc, c =>
      match c.token? with
      | some (t, c) =>
          if t.char?.any p then spanAux p fuel (t.text ++ acc) c
          else some ((acc.reverse, t), c)
      | none => none

/-- The characters that meet a condition, and the token behind them. -/
def span (p : Char → Bool) : Reader (List Char × Token) := fun c =>
  c.spanAux p (c.bound + 1) []

def untilAux (p : Char → Bool) (close : Token) : Nat → List Char → Reader (List Char)
  | 0, _, _ => none
  | fuel + 1, acc, c =>
      match c.token? with
      | some (t, c) =>
          if t = close then some (acc.reverse, c)
          else if t.allows p then untilAux p close fuel (t.text.reverse ++ acc) c
          else none
      | none => none

/-- The text up to a closing token, which is taken as well. Characters that stand for themselves
have to meet a condition. -/
def until? (p : Char → Bool) (close : Token) : Reader (List Char) := fun c =>
  c.untilAux p close (c.bound + 1) []

end Cursor

end BlockScript.Xml
