import BlockScript.Proofs.Text.LineEnds
import BlockScript.Proofs.Text.WholeLines

/-! # Texts with marked lines

Indentation and comments put a mark in front of every line of a text. The text may then be marked
part by part, if it is cut at the ends of lines, and marks on marked lines add up. Both hold only
there: a cut inside a line would be marked twice, and a mark with newlines has lines of its own. -/

namespace BlockScript.Text

variable (text rest mark outer : String)

/-! ### Line by line -/

/-- Put a mark in front of each line. Behind the newline that ends a text there is no line. -/
def markLines (mark : String) : List String → List String
  | [] => []
  | [last] => [if last = "" then "" else mark ++ last]
  | line :: next :: more => (mark ++ line) :: markLines mark (next :: more)

theorem markLines_ne_nil {ls : List String} (h : ls ≠ []) : markLines mark ls ≠ [] := by
  obtain ⟨line, more, rfl⟩ := List.exists_cons_of_ne_nil h
  cases more <;> exact List.cons_ne_nil _ _

theorem prefixLines_of_not_mem {line : String} (h : '\n' ∉ line.toList) :
    prefixLines line mark = if line = "" then "" else mark ++ line := by
  split
  · next empty => rw [empty, prefixLines_empty]
  · next filled =>
      have unbroken : line.toList.getLast? ≠ some '\n' := fun ends => h (List.mem_of_getLast? ends)
      have unmarked := shift_eq_markTail mark.toList line.toList
      rw [shift_of_not_mem _ h, if_neg unbroken, List.append_nil] at unmarked
      rw [← String.toList_inj, toList_prefixLines filled, ← unmarked, String.toList_append]

/-- A text with marks is its lines, marked and joined again. -/
theorem prefixLines_eq_joinLines :
    prefixLines text mark = joinLines (markLines mark (lines text)) := by
  have marked (ls : List String) (hne : ls ≠ []) (h : ∀ line ∈ ls, '\n' ∉ line.toList) :
      prefixLines (joinLines ls) mark = joinLines (markLines mark ls) := by
    induction ls with
    | nil => exact absurd rfl hne
    | cons line more ih =>
        obtain ⟨own, others⟩ := List.forall_mem_cons.mp h
        cases more with
        | nil => simpa [joinLines, markLines] using prefixLines_of_not_mem mark own
        | cons next more =>
            have later : next :: more ≠ [] := List.cons_ne_nil _ _
            rw [joinLines_cons line later, prefixLines_append_newline, shift_of_not_mem _ own,
              String.ofList_toList, ih later others, markLines,
              joinLines_cons _ (markLines_ne_nil mark later)]
  have cut : lines text ≠ [] := by
    rw [lines, ne_eq, List.map_eq_nil_iff]
    exact splitLines_ne_nil _
  rw [← marked (lines text) cut fun _ => newline_not_mem_of_mem_lines, joinLines_lines]

/-! ### Texts in a row -/

/-- A text is marked part by part exactly if the first part ends where a line does, unless there is
nothing behind it or nothing to be put there. -/
theorem prefixLines_append_iff :
    prefixLines (text ++ rest) mark = prefixLines text mark ++ prefixLines rest mark ↔
      IsLineComplete text ∨ rest = "" ∨ mark = "" := by
  by_cases first : text = ""
  · simp [first, IsLineComplete]
  by_cases last : rest = ""
  · simp [last]
  have both : text ++ rest ≠ "" := fun empty => first (String.append_eq_empty_iff.mp empty).1
  have later : rest.toList ≠ [] := fun empty => last (String.toList_eq_nil_iff.mp empty)
  -- All but the mark in front of the second part is the same on both sides.
  have cut : prefixLines (text ++ rest) mark = prefixLines text mark ++ prefixLines rest mark ↔
      (if text.toList.getLast? = some '\n' then mark.toList else []) = mark.toList := by
    rw [← String.toList_inj, String.toList_append, toList_prefixLines both,
      toList_prefixLines first, toList_prefixLines last, String.toList_append,
      markTail_append _ _ later, shift_eq_markTail]
    simp only [List.append_assoc, List.append_cancel_left_eq, List.append_cancel_right_eq]
  rw [cut, isLineComplete_iff_of_ne_empty first, EndsLine]
  by_cases ends : text.toList.getLast? = some '\n'
  · simp [ends]
  · rw [if_neg ends, eq_comm, String.toList_eq_nil_iff]
    simp [ends, last]

/-! ### Marks on marks -/

/-- Marked lines that are marked again have one mark, made of both. A newline in the first mark
starts a line, which gets the second one. -/
theorem prefixLines_prefixLines :
    prefixLines (prefixLines text mark) outer =
      prefixLines text (outer ++ String.ofList (shift outer.toList mark.toList)) := by
  by_cases empty : text = ""
  · rw [empty, prefixLines_empty, prefixLines_empty, prefixLines_empty]
  have filled : text.toList ≠ [] := fun none => empty (String.toList_eq_nil_iff.mp none)
  have tail : markTail mark.toList text.toList ≠ [] := (markTail_eq_nil_iff _ _).not.mpr filled
  have marked : prefixLines text mark ≠ "" := by
    rw [ne_eq, ← String.toList_eq_nil_iff, toList_prefixLines empty]
    exact List.append_ne_nil_of_right_ne_nil _ tail
  rw [← String.toList_inj, toList_prefixLines marked, toList_prefixLines empty,
    toList_prefixLines empty, markTail_append _ _ tail, markTail_markTail, String.toList_append,
    String.toList_ofList, List.append_assoc]

/-- The mark can be told from the marked lines. -/
theorem prefixLines_inj {text : String} (h : text ≠ "") {mark mark' : String} :
    prefixLines text mark = prefixLines text mark' ↔ mark = mark' := by
  refine ⟨fun same => ?_, fun same => same ▸ rfl⟩
  rw [← String.toList_inj, toList_prefixLines h, toList_prefixLines h] at same
  -- A longer mark makes the rest of the text no shorter.
  have noShorter {m m' : String} (eq : m.toList ++ markTail m.toList text.toList =
      m'.toList ++ markTail m'.toList text.toList) : m'.toList.length ≤ m.toList.length := by
    by_contra longer
    have rest := length_markTail_le m.toList text.toList (Nat.le_of_not_le longer)
    have total := congrArg List.length eq
    rw [List.length_append, List.length_append] at total
    omega
  have length := Nat.le_antisymm (noShorter same.symm) (noShorter same)
  exact String.toList_injective (List.append_inj same length).1

/-- Two marks are as good as one exactly if the inner one is on one line, unless there is no line to
be marked or no mark to be put. -/
theorem prefixLines_prefixLines_iff :
    prefixLines (prefixLines text mark) outer = prefixLines text (outer ++ mark) ↔
      '\n' ∉ mark.toList ∨ text = "" ∨ outer = "" := by
  by_cases empty : text = ""
  · simp [empty]
  have shifted : shift outer.toList mark.toList = mark.toList ↔
      outer.toList = [] ∨ '\n' ∉ mark.toList := by
    simpa using iterate_shift_eq_self_iff outer.toList mark.toList 1
  rw [prefixLines_prefixLines, prefixLines_inj empty, String.append_right_inj, ← String.toList_inj,
    String.toList_ofList, shifted, String.toList_eq_nil_iff]
  tauto

theorem markTail_nil (cs : List Char) : markTail [] cs = cs := by
  induction cs with
  | nil => rfl
  | cons c rest ih => simp [markTail, ih]

/-- An empty mark changes nothing. -/
theorem prefixLines_empty_mark : prefixLines text "" = text := by
  by_cases empty : text = ""
  · rw [empty, prefixLines_empty]
  · rw [← String.toList_inj, toList_prefixLines empty]
    exact markTail_nil text.toList

/-- Marks go line by line. Texts in a row may be marked one by one exactly where a line starts
between them, marks on marks are one mark exactly if the inner one is on one line, an empty mark
changes nothing, and a text with marks is empty or ends its last line exactly if the text does. -/
theorem prefixLines_lineWise :
    prefixLines text mark = joinLines (markLines mark (lines text)) ∧
    (prefixLines (text ++ rest) mark = prefixLines text mark ++ prefixLines rest mark ↔
      IsLineComplete text ∨ rest = "" ∨ mark = "") ∧
    (prefixLines (prefixLines text mark) outer = prefixLines text (outer ++ mark) ↔
      '\n' ∉ mark.toList ∨ text = "" ∨ outer = "") ∧
    prefixLines text "" = text ∧
    (prefixLines text mark = "" ↔ text = "") ∧
    (EndsLine (prefixLines text mark) ↔ EndsLine text) :=
  ⟨prefixLines_eq_joinLines text mark, prefixLines_append_iff text rest mark,
    prefixLines_prefixLines_iff text mark outer, prefixLines_empty_mark text,
    prefixLines_eq_empty_iff text mark, endsLine_prefixLines_iff text mark⟩

example : prefixLines "a\n\nb\n\n" "// " = "// a\n// \n// b\n// \n" := by decide

end BlockScript.Text
