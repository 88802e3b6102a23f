/-! # Replacement

Every occurrence of a pattern, from left to right and without overlap, gives way to another
text. -/

namespace BlockScript.Text

/-- Replace occurrences of `pattern`; `skip` characters belong to one already replaced. -/
def replaceFrom (pattern new : List Char) : Nat → List Char → List Char
  | _, [] => []
  | skip + 1, _ :: rest => replaceFrom pattern new skip rest
  | 0, c :: rest =>
      if pattern.isPrefixOf (c :: rest) then
        new ++ replaceFrom pattern new (pattern.length - 1) rest
      else c :: replaceFrom pattern new 0 rest

/-- Replace each occurrence of a non-empty pattern. -/
def replaceAll (text pattern new : String) : String :=
  String.ofList (replaceFrom pattern.toList new.toList 0 text.toList)

/-- Does a text hold another one somewhere? -/
def holdsText (pattern : List Char) : List Char → Bool
  | [] => pattern.isEmpty
  | c :: rest => pattern.isPrefixOf (c :: rest) || holdsText pattern rest

@[simp] theorem replaceFrom_nil (pattern new : List Char) (skip : Nat) :
    replaceFrom pattern new skip [] = [] := by
  cases skip <;> rfl

/-- The characters still to be skipped are dropped first. -/
theorem replaceFrom_skip (pattern new : List Char) (skip : Nat) (cs : List Char) :
    replaceFrom pattern new skip cs = replaceFrom pattern new 0 (cs.drop skip) := by
  induction cs generalizing skip with
  | nil => simp
  | cons c rest ih =>
    cases skip with
    | zero => rfl
    | succ n => simpa [replaceFrom] using ih n

end BlockScript.Text
