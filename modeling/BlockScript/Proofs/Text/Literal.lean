import BlockScript.Proofs.Text.Replacement
import BlockScript.Template

/-! # Literals and what they denote

How a literal of the script is read. The literal of a text is read as the text, whatever stands in
the text, and so is a text of several lines that is written as a sum of literals. An id between two
quotes is read as the id only if nothing in it needs a backslash. -/

namespace BlockScript.Text

/-- Read a literal behind its opening quote: the text that it denotes, and what follows its closing
quote. Behind a backslash a character stands for itself, apart from an `n`, which stands for a
newline. A dollar sign without a backslash is an interpolation, not a part of a text. -/
def readQuoted (backslash : Bool) : List Char → Option (List Char × List Char)
  | [] => none
  | c :: rest =>
      if backslash then
        (readQuoted false rest).map (Prod.map ((if c = 'n' then '\n' else c) :: ·) id)
      else if c = '\\' then readQuoted true rest
      else if c = '\'' then some ([], rest)
      else if c = '$' then none
      else (readQuoted false rest).map (Prod.map (c :: ·) id)

/-- Read a literal. -/
def readLiteral : List Char → Option (List Char × List Char)
  | [] => none
  | c :: rest => if c = '\'' then readQuoted false rest else none

theorem readQuoted_escape (cs rest : List Char) :
    readQuoted false (escape cs ++ '\'' :: rest) = some (cs, rest) := by
  induction cs with
  | nil => simp [readQuoted]
  | cons c cs ih =>
      rw [escape_cons, List.append_assoc, escapeChar]
      split
      · next escaped =>
          have other : c ≠ 'n' := by
            rintro rfl
            exact absurd escaped (by decide)
          simp [readQuoted, ih, other]
      · next plain =>
          simp only [needsEscape, Bool.or_eq_true, beq_iff_eq, not_or] at plain
          obtain ⟨⟨⟨backslash, -⟩, dollar⟩, quote⟩ := plain
          simp [readQuoted, ih, backslash, dollar, quote]

/-- The literal of a text is read as the text, whatever follows. -/
theorem readLiteral_quote (text : String) (rest : List Char) :
    readLiteral ((quote text).toList ++ rest) = some (text.toList, rest) := by
  rw [toList_quote, List.cons_append, List.append_assoc]
  exact readQuoted_escape text.toList rest

/-! Escaping by replacement. -/

/-- Replacing one character goes character by character. -/
theorem replaceFrom_singleton (c : Char) (new cs : List Char) :
    replaceFrom [c] new 0 cs = cs.flatMap fun d => if d = c then new else [d] := by
  induction cs with
  | nil => rfl
  | cons d rest ih =>
      rw [replaceFrom, List.flatMap_cons, ← ih]
      by_cases same : d = c
      · simp [same]
      · simp [same, Ne.symm same]

/-- Escaping is replacing one special character after another. The backslash comes first, so that
no backslash in front of a special character is taken for one of the text. -/
theorem escape_eq_replaceFrom (cs : List Char) :
    escape cs =
      replaceFrom ['\''] ['\\', '\''] 0
        (replaceFrom ['$'] ['\\', '$'] 0
          (replaceFrom ['\n'] ['\\', '\n'] 0
            (replaceFrom ['\\'] ['\\', '\\'] 0 cs))) := by
  simp only [replaceFrom_singleton, List.flatMap_assoc, escape]
  congr 1
  funext c
  by_cases backslash : c = '\\'
  · subst backslash
    rfl
  by_cases newline : c = '\n'
  · subst newline
    rfl
  by_cases dollar : c = '$'
  · subst dollar
    rfl
  by_cases apostrophe : c = '\''
  · subst apostrophe
    rfl
  simp [escapeChar, needsEscape, backslash, newline, dollar, apostrophe]

theorem quote_eq_replaceAll (text : String) :
    quote text =
      "'" ++ replaceAll (replaceAll (replaceAll (replaceAll text "\\" "\\\\") "\n" "\\\n")
        "$" "\\$") "'" "\\'" ++ "'" := by
  apply String.toList_injective
  simp [replaceAll, escape_eq_replaceFrom]

/-! Sums of literals. -/

/-- The code is a sum of literals, and these are the texts that they denote. -/
inductive IsLiteralSum : List Char → List (List Char) → Prop
  | last {code value : List Char} (read : readLiteral code = some (value, [])) :
      IsLiteralSum code [value]
  | plus {code value before behind rest : List Char} {values : List (List Char)}
      (read : readLiteral code = some (value, before ++ '+' :: (behind ++ rest)))
      (blankBefore : ∀ c ∈ before, isBlank c = true) (blankBehind : ∀ c ∈ behind, isBlank c = true)
      (more : IsLiteralSum rest values) :
      IsLiteralSum code (value :: values)

/-- The literals of a text and of a newline in front of a sum. -/
theorem IsLiteralSum.line {rest : List Char} {values : List (List Char)}
    (more : IsLiteralSum rest values) (line : String) :
    IsLiteralSum ((quote line).toList ++ " + '\\n' + \n".toList ++ rest)
      (line.toList :: ['\n'] :: values) := by
  have blank : ∀ c ∈ [' '], isBlank c = true := List.all_eq_true.mp (by decide)
  have blanks : ∀ c ∈ [' ', '\n'], isBlank c = true := List.all_eq_true.mp (by decide)
  have newline : IsLiteralSum ("'\\n' + \n".toList ++ rest) (['\n'] :: values) := by
    have read : readLiteral ("'\\n' + \n".toList ++ rest) =
        some (['\n'], [' '] ++ '+' :: ([' ', '\n'] ++ rest)) := by
      simp [readLiteral, readQuoted]
    exact .plus read blank blanks more
  have read : readLiteral ((quote line).toList ++ " + '\\n' + \n".toList ++ rest) =
      some (line.toList, [' '] ++ '+' :: ([' '] ++ ("'\\n' + \n".toList ++ rest))) := by
    rw [List.append_assoc, readLiteral_quote]
    rfl
  exact .plus read blank blank newline

theorem isLiteralSum_lines (line : String) (more : List String) :
    IsLiteralSum (" + '\\n' + \n".intercalate ((line :: more).map quote)).toList
      (((line :: more).map String.toList).intersperse ['\n']) := by
  induction more generalizing line with
  | nil =>
      apply IsLiteralSum.last
      simpa using readLiteral_quote line []
  | cons next rest ih =>
      have joined := (ih next).line line
      simpa only [List.map_cons, String.intercalate_cons_cons, String.toList_append,
        List.intersperse_cons_cons] using joined

/-- A text of several lines is written as a sum of the literals of its lines and of newlines. -/
theorem isLiteralSum_multilineQuote (text : String) :
    IsLiteralSum (multilineQuote text).toList ((splitLines text.toList).intersperse ['\n']) := by
  obtain ⟨line, more, split⟩ := List.exists_cons_of_ne_nil (splitLines_ne_nil text.toList)
  have sum := isLiteralSum_lines (String.ofList line) (more.map String.ofList)
  simpa [multilineQuote, lines, split, Function.comp_def] using sum

theorem plus_mem_escape (cs : List Char) : '+' ∈ escape cs ↔ '+' ∈ cs := by
  induction cs with
  | nil => simp
  | cons c rest ih =>
      have single : '+' ∈ escapeChar c ↔ '+' = c := by
        unfold escapeChar
        split <;> simp
      rw [escape_cons, List.mem_append, List.mem_cons, ih, single]

/-- A plus sign stands between two lines, or in one of them. -/
theorem plus_mem_multilineQuote (text : String) :
    '+' ∈ (multilineQuote text).toList ↔ 1 < (lines text).length ∨ '+' ∈ text.toList := by
  have joined := intercalate_splitLines text.toList
  unfold multilineQuote lines
  match split : splitLines text.toList with
  | [] => exact absurd split (splitLines_ne_nil _)
  | [line] =>
      rw [split] at joined
      obtain rfl : line = text.toList := by simpa using joined
      simp [plus_mem_escape]
  | line :: next :: more => simp

/-- The literal of a text escapes one special character after another, and it is complete: it ends
where it is closed and denotes the text. The code of several lines is a sum of literals that denote
the text together, and its level is that of a sum. -/
theorem literals_read_back (text : String) :
    quote text =
      "'" ++ replaceAll (replaceAll (replaceAll (replaceAll text "\\" "\\\\") "\n" "\\\n")
        "$" "\\$") "'" "\\'" ++ "'" ∧
    (∀ rest, readLiteral ((quote text).toList ++ rest) = some (text.toList, rest)) ∧
    (∃ values, IsLiteralSum (multilineQuote text).toList values ∧ values.flatten = text.toList) ∧
    ∀ (o : Options) (n : Node), ∃ level,
      Kind.textMultiline.script o n =
        .done (.value (multilineQuote (n.fieldText "TEXT")) level) ∧
      (level = .additive ↔
        1 < (lines (n.fieldText "TEXT")).length ∨ '+' ∈ (n.fieldText "TEXT").toList) := by
  refine ⟨quote_eq_replaceAll text, readLiteral_quote text, ?sum, ?block⟩
  case sum =>
    refine ⟨_, isLiteralSum_multilineQuote text, ?_⟩
    exact intercalate_splitLines text.toList
  case block =>
    intro o n
    refine ⟨_, rfl, ?_⟩
    rw [← plus_mem_multilineQuote]
    split <;> simp_all

/-! Ids in templates. -/

/-- A character that means something of its own in a literal. -/
def isSpecial (c : Char) : Bool := c == '\\' || c == '\'' || c == '$'

/-- Reading takes a character at least for each one that it gives, and one more for the quote. -/
theorem length_lt_of_readQuoted {backslash : Bool} {cs value rest : List Char}
    (read : readQuoted backslash cs = some (value, rest)) :
    value.length + rest.length < cs.length := by
  induction cs generalizing backslash value with
  | nil => simp [readQuoted] at read
  | cons c more ih =>
      have step {d : Char}
          (h : (readQuoted false more).map (Prod.map (d :: ·) id) = some (value, rest)) :
          value.length + rest.length < (c :: more).length := by
        obtain ⟨⟨value', rest'⟩, later, same⟩ := Option.map_eq_some_iff.mp h
        obtain ⟨rfl, rfl⟩ := Prod.mk.inj same
        have := ih later
        simp only [id_eq, List.length_cons] at this ⊢
        omega
      rw [readQuoted] at read
      split at read
      · exact step read
      split at read
      · have := ih read
        simp only [List.length_cons]
        omega
      split at read
      · obtain ⟨rfl, rfl⟩ := Prod.mk.inj (Option.some.inj read)
        simp
      split at read
      · cases read
      · exact step read

/-- Characters between quotes denote themselves exactly if none of them is special. -/
theorem readQuoted_eq_self_iff (cs rest : List Char) :
    readQuoted false (cs ++ '\'' :: rest) = some (cs, rest) ↔ ∀ c ∈ cs, isSpecial c = false := by
  induction cs with
  | nil => simp [readQuoted]
  | cons c more ih =>
      rw [List.cons_append, readQuoted, List.forall_mem_cons, ← ih]
      by_cases backslash : c = '\\'
      · -- What follows the backslash is too short for a text that starts with it.
        subst backslash
        have short : readQuoted true (more ++ '\'' :: rest) ≠ some ('\\' :: more, rest) := by
          intro read
          have := length_lt_of_readQuoted read
          simp only [List.length_cons, List.length_append] at this
          omega
        simp [short, isSpecial]
      by_cases quote : c = '\''
      · simp [quote, isSpecial]
      by_cases dollar : c = '$'
      · simp [dollar, isSpecial]
      have plain : isSpecial c = false := by simp [isSpecial, backslash, quote, dollar]
      have same (value : Option (List Char × List Char)) :
          value.map (Prod.map (c :: ·) id) = some (c :: more, rest) ↔
            value = some (more, rest) := by
        cases value <;> simp [Prod.ext_iff]
      simp only [Bool.false_eq_true, if_false, backslash, quote, dollar, same, plain, true_and]

/-- A template is cut where it says `%1`, and the id stands in quotes at each cut, with the pieces
in their places. That is a literal of the id exactly if the id has no special character: no
backslash is put in front of one. -/
theorem injectId_pieces (template id : String) :
    ∃ pieces : List String, template = "%1".intercalate pieces ∧
      (∀ piece ∈ pieces, holdsText "%1".toList piece.toList = false) ∧
      injectId template id = ("'" ++ id ++ "'").intercalate pieces ∧
      ∀ rest, readLiteral (("'" ++ id ++ "'").toList ++ rest) = some (id.toList, rest) ↔
        ∀ c ∈ id.toList, isSpecial c = false := by
  have nonempty : "%1".toList ≠ [] := by decide
  obtain ⟨pieces, whole, apart, replaced⟩ := exists_pieces nonempty template.toList
  refine ⟨pieces.map String.ofList, ?_, ?_, ?_, ?_⟩
  · apply String.toList_injective
    rw [String.toList_intercalate, List.map_map]
    simpa [Function.comp_def] using whole
  · simpa using apart
  · apply String.toList_injective
    rw [injectId, replaceAll, String.toList_ofList, replaced, String.toList_intercalate]
    simp [Function.comp_def]
  · intro rest
    rw [← readQuoted_eq_self_iff id.toList rest]
    simp [readLiteral]

/-- An id with a dollar sign is taken for an interpolation. -/
theorem injectId_interpolates :
    ¬ ∃ literal, injectId "trace(%1);\n" "a$b" = "trace(" ++ literal ++ ");\n" ∧
      readLiteral literal.toList = some ("a$b".toList, []) := by
  have injected : injectId "trace(%1);\n" "a$b" = "trace(" ++ "'a$b'" ++ ");\n" := by decide
  rintro ⟨literal, same, read⟩
  rw [injected] at same
  obtain rfl : "'a$b'" = literal := by
    simpa only [String.append_right_inj, String.append_left_inj] using same
  exact absurd read (by decide)

end BlockScript.Text
