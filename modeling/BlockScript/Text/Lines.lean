/-! # Lines

A text with n newlines has n + 1 lines. Marks are put in front of lines, and a
newline at the very end of a text opens no line of its own. -/

namespace BlockScript.Text

/-- Cut at every newline. -/
def splitLines : List Char → List (List Char)
  | [] => [[]]
  | c :: rest =>
      if c = '\n' then [] :: splitLines rest
      else match splitLines rest with
        | [] => [[c]]
        | line :: lines => (c :: line) :: lines

/-- The lines of a text. -/
def lines (text : String) : List String := (splitLines text.toList).map String.ofList

/-- Join lines, with a newline between two of them. -/
def joinLines (ls : List String) : String := "\n".intercalate ls

/-- The lines of a text, each behind `margin`; a last empty line included. -/
def indented (text margin : String) : List String := (lines text).map (margin ++ ·)

/-- Put `mark` after each newline that is not the last character. -/
def markTail (mark : List Char) : List Char → List Char
  | [] => []
  | c :: rest =>
      if c = '\n' ∧ rest ≠ [] then c :: (mark ++ markTail mark rest)
      else c :: markTail mark rest

/-- Put `mark` in front of every line. An empty text stays empty, and nothing follows a
newline that ends the text. -/
def prefixLines (text mark : String) : String :=
  match text.toList with
  | [] => ""
  | cs => String.ofList (mark.toList ++ markTail mark.toList cs)

@[simp] theorem splitLines_nil : splitLines [] = [[]] := rfl

theorem splitLines_ne_nil (cs : List Char) : splitLines cs ≠ [] := by
  induction cs with
  | nil => simp
  | cons c rest ih =>
    simp only [splitLines]
    split
    · simp
    · split <;> simp

/-- Joining the lines again gives the text. -/
theorem intercalate_splitLines (cs : List Char) :
    ['\n'].intercalate (splitLines cs) = cs := by
  induction cs with
  | nil => rfl
  | cons c rest ih =>
    have hne := splitLines_ne_nil rest
    simp only [splitLines]
    split
    · rename_i h
      cases hs : splitLines rest with
      | nil => exact absurd hs hne
      | cons l ls => rw [hs] at ih; simp [List.intercalate_cons_cons, ih, h]
    · cases hs : splitLines rest with
      | nil => exact absurd hs hne
      | cons l ls =>
        rw [hs] at ih
        cases ls with
        | nil => simpa using ih
        | cons m ms => simpa [List.intercalate_cons_cons] using ih

@[simp] theorem prefixLines_empty (mark : String) : prefixLines "" mark = "" := rfl

end BlockScript.Text
