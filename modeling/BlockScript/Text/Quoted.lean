import BlockScript.Text.Lines
import BlockScript.Text.Replace

/-! # Quoted literals

A literal of the script stands in single quotes. A backslash keeps the character after it from
its usual meaning: the end of the literal for a quote, an interpolation for a dollar sign. -/

namespace BlockScript.Text

/-- The characters that need a backslash in front. -/
def needsEscape (c : Char) : Bool := c == '\\' || c == '\n' || c == '$' || c == '\''

def escapeChar (c : Char) : List Char := if needsEscape c then ['\\', c] else [c]

def escape (cs : List Char) : List Char := cs.flatMap escapeChar

/-- The literal that denotes a text. -/
def quote (text : String) : String :=
  String.ofList ('\'' :: (escape text.toList ++ ['\'']))

/-- A literal a line, joined by an explicit newline literal. -/
def multilineQuote (text : String) : String :=
  " + '\\n' + \n".intercalate ((lines text).map quote)

/-- Put the block's id, in quotes, wherever the template says `%1`. -/
def injectId (template id : String) : String :=
  replaceAll template "%1" ("'" ++ id ++ "'")

@[simp] theorem escape_nil : escape [] = [] := rfl

@[simp] theorem escape_cons (c : Char) (cs : List Char) :
    escape (c :: cs) = escapeChar c ++ escape cs := rfl

@[simp] theorem toList_quote (text : String) :
    (quote text).toList = '\'' :: (escape text.toList ++ ['\'']) := by
  simp [quote]

end BlockScript.Text
