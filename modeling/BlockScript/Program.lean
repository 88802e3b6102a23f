import BlockScript.GenerateError
import BlockScript.Text.Blank
import BlockScript.Text.Lines

/-! # Programs and their source text

A program is what a pass produces. Its source puts the imports first, then the definitions, then
the body, and tidies blank lines and trailing spaces. -/

namespace BlockScript

structure Program where
  imports : Table String := []
  definitions : Table String := []
  body : String := ""
  /-- Errors that comments in the body stand for. -/
  errors : List GenerateError := []
deriving DecidableEq, Repr

namespace Layout

/-- At most two newlines in a row; `seen` of them precede the text. -/
def limitNewlines (seen : Nat) : List Char → List Char
  | [] => []
  | c :: rest =>
      if c = '\n' then
        if seen < 2 then c :: limitNewlines (seen + 1) rest else limitNewlines seen rest
      else c :: limitNewlines 0 rest

/-- Without the newlines at the end. -/
def dropLastNewlines (cs : List Char) : List Char :=
  (cs.reverse.dropWhile (· = '\n')).reverse

/-- What follows the last newline, if there is a newline. -/
def afterLastNewline? : List Char → Option (List Char)
  | [] => none
  | c :: rest =>
      match afterLastNewline? rest with
      | some tail => some tail
      | none => if c = '\n' then some rest else none

/-- Without the blank lines at the start. A newline that is the first character stays unless
another one ends the blanks after it. -/
def dropLeadingBlanks (cs : List Char) : List Char :=
  match cs with
  | [] => []
  | c :: rest =>
      if Text.isBlank c then
        match afterLastNewline? (rest.takeWhile Text.isBlank) with
        | some tail => tail ++ rest.dropWhile Text.isBlank
        | none => cs
      else cs

/-- Blanks that hold a newline, with something after it, shrink to what precedes that newline and
the newline. -/
def shrinkBlanks : List Char → List Char
  | [] => []
  | c :: rest => if c = '\n' ∧ rest ≠ [] then ['\n'] else c :: shrinkBlanks rest

/-- Without the blank lines at the end. -/
def dropTrailingBlanks (cs : List Char) : List Char :=
  let blanks := (cs.reverse.takeWhile Text.isBlank).reverse
  (cs.reverse.dropWhile Text.isBlank).reverse ++ shrinkBlanks blanks

def isSpaceOrTab (c : Char) : Bool := c == ' ' || c == '\t'

/-- Without the spaces and tabs in front of newlines; `held` of them precede the text. -/
def dropLineEnds (held : List Char) : List Char → List Char
  | [] => held
  | c :: rest =>
      if isSpaceOrTab c then dropLineEnds (held ++ [c]) rest
      else if c = '\n' then c :: dropLineEnds [] rest
      else held ++ c :: dropLineEnds [] rest

/-- The imports and definitions, with single blank lines between them. -/
def preamble (imports definitions : List String) : List Char :=
  dropLastNewlines (limitNewlines 0
    ("\n".intercalate imports ++ "\n\n" ++ "\n\n".intercalate definitions).toList)

end Layout

namespace Program
open Layout

/-- The text of the script. -/
def source (p : Program) : String :=
  let code := preamble p.imports.values p.definitions.values ++ "\n\n\n".toList ++ p.body.toList
  String.ofList (dropLineEnds [] (dropTrailingBlanks (dropLeadingBlanks code)))

end Program

end BlockScript
