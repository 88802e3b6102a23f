import BlockScript.Proofs.Text.Shift

/-! # Texts of whole lines

A text of whole lines has a newline behind each of them. Its lines, apart from the empty one that
the last newline opens, are those that it was put together from, and a mark in front of every line
goes to each of them. -/

namespace BlockScript.Text

/-- Lines, each with a newline behind it. -/
def wholeLines (ls : List String) : String := String.join (ls.map (· ++ "\n"))

@[simp] theorem wholeLines_nil : wholeLines [] = "" := rfl

@[simp] theorem wholeLines_cons (line : String) (ls : List String) :
    wholeLines (line :: ls) = line ++ "\n" ++ wholeLines ls := by
  rw [wholeLines, List.map_cons, String.join_cons]
  rfl

@[simp] theorem wholeLines_append (ls ls' : List String) :
    wholeLines (ls ++ ls') = wholeLines ls ++ wholeLines ls' := by
  induction ls with
  | nil => simp
  | cons line rest ih => simp [ih, String.append_assoc]

theorem joinLines_cons {ls : List String} (line : String) (h : ls ≠ []) :
    joinLines (line :: ls) = line ++ "\n" ++ joinLines ls := by
  obtain ⟨next, more, rfl⟩ := List.exists_cons_of_ne_nil h
  rw [joinLines, String.intercalate_cons_cons, joinLines]

/-- Texts joined with a last one have a newline behind each but the last. -/
theorem joinLines_concat (texts : List String) (last : String) :
    joinLines (texts ++ [last]) = wholeLines texts ++ last := by
  induction texts with
  | nil => simp [joinLines]
  | cons text rest ih =>
      have more : rest ++ [last] ≠ [] := List.concat_ne_nil last rest
      rw [List.cons_append, joinLines_cons text more, ih, wholeLines_cons]
      simp only [String.append_assoc]

/-! ### The lines of a text -/

/-- No line has a newline. -/
theorem newline_not_mem_of_mem_splitLines {cs line : List Char} (h : line ∈ splitLines cs) :
    '\n' ∉ line := by
  induction cs generalizing line with
  | nil =>
      obtain rfl := List.mem_singleton.mp h
      exact List.not_mem_nil
  | cons c rest ih =>
      rw [splitLines] at h
      split at h
      · rcases List.mem_cons.mp h with rfl | h
        · exact List.not_mem_nil
        · exact ih h
      · next other =>
          obtain ⟨first, others, split⟩ := List.exists_cons_of_ne_nil (splitLines_ne_nil rest)
          simp only [split, List.mem_cons] at h ih
          rcases h with rfl | h
          · rw [List.mem_cons, not_or]
            exact ⟨Ne.symm other, ih (.inl rfl)⟩
          · exact ih (.inr h)

theorem newline_not_mem_of_mem_lines {text line : String} (h : line ∈ lines text) :
    '\n' ∉ line.toList := by
  obtain ⟨cs, hcs, rfl⟩ := List.mem_map.mp h
  rw [String.toList_ofList]
  exact newline_not_mem_of_mem_splitLines hcs

/-- The first line ends at the first newline. -/
theorem splitLines_append_cons {line : List Char} (h : '\n' ∉ line) (rest : List Char) :
    splitLines (line ++ '\n' :: rest) = line :: splitLines rest := by
  induction line with
  | nil => simp [splitLines]
  | cons c more ih =>
      obtain ⟨other, later⟩ := not_or.mp (List.mem_cons.not.mp h)
      rw [List.cons_append, splitLines, if_neg (Ne.symm other), ih later]

theorem lines_append {line : String} (h : '\n' ∉ line.toList) (rest : String) :
    lines (line ++ "\n" ++ rest) = line :: lines rest := by
  have chars : (line ++ "\n" ++ rest).toList = line.toList ++ '\n' :: rest.toList := by simp
  rw [lines, chars, splitLines_append_cons h, List.map_cons, String.ofList_toList, lines]

theorem splitLines_of_not_mem {line : List Char} (h : '\n' ∉ line) : splitLines line = [line] := by
  induction line with
  | nil => rfl
  | cons c more ih =>
      obtain ⟨other, later⟩ := not_or.mp (List.mem_cons.not.mp h)
      rw [splitLines, if_neg (Ne.symm other), ih later]

theorem lines_of_not_mem {line : String} (h : '\n' ∉ line.toList) : lines line = [line] := by
  rw [lines, splitLines_of_not_mem h, List.map_singleton, String.ofList_toList]

/-- Lines that are joined are found again. -/
theorem lines_joinLines {ls : List String} (hne : ls ≠ [])
    (h : ∀ line ∈ ls, '\n' ∉ line.toList) : lines (joinLines ls) = ls := by
  induction ls with
  | nil => exact absurd rfl hne
  | cons line rest ih =>
      obtain ⟨own, others⟩ := List.forall_mem_cons.mp h
      by_cases last : rest = []
      · subst last
        rw [joinLines, String.intercalate_singleton, lines_of_not_mem own]
      · rw [joinLines_cons line last, lines_append own, ih last others]

/-- A text is its lines, joined. -/
theorem joinLines_lines (text : String) : joinLines (lines text) = text := by
  apply String.toList_injective
  rw [joinLines, String.toList_intercalate, lines, List.map_map]
  simpa [Function.comp_def] using intercalate_splitLines text.toList

/-- A text of whole lines has these lines, and an empty one behind its last newline. -/
theorem lines_wholeLines {ls : List String} (h : ∀ line ∈ ls, '\n' ∉ line.toList) :
    lines (wholeLines ls) = ls ++ [""] := by
  induction ls with
  | nil => rfl
  | cons line rest ih =>
      obtain ⟨own, others⟩ := List.forall_mem_cons.mp h
      rw [wholeLines_cons, lines_append own, ih others, List.cons_append]

/-- The lines of a text make up the text and the newline behind it. -/
theorem wholeLines_lines (text : String) : wholeLines (lines text) = text ++ "\n" := by
  have chars (ls : List (List Char)) (hne : ls ≠ []) :
      (wholeLines (ls.map String.ofList)).toList = ['\n'].intercalate ls ++ ['\n'] := by
    induction ls with
    | nil => exact absurd rfl hne
    | cons line rest ih =>
        cases rest with
        | nil => simp
        | cons second more =>
            rw [List.map_cons, wholeLines_cons, String.toList_append, ih (List.cons_ne_nil _ _),
              List.intercalate_cons_cons]
            simp
  rw [← String.toList_inj, lines, chars _ (splitLines_ne_nil _), intercalate_splitLines,
    String.toList_append]
  rfl

/-- So do the lines of several texts. -/
theorem wholeLines_flatMap_lines (texts : List String) :
    wholeLines (texts.flatMap lines) = wholeLines texts := by
  induction texts with
  | nil => rfl
  | cons text rest ih =>
      rw [List.flatMap_cons, wholeLines_append, wholeLines_lines, ih, wholeLines_cons]

/-! ### Marks in front of lines -/

theorem toList_prefixLines {text : String} (h : text ≠ "") (mark : String) :
    (prefixLines text mark).toList = mark.toList ++ markTail mark.toList text.toList := by
  unfold prefixLines
  split
  · next empty => exact absurd (String.toList_eq_nil_iff.mp empty) h
  · rw [String.toList_ofList]

/-- After a newline, marks are put as at the start of a text. -/
theorem prefixLines_append_newline (text rest mark : String) :
    prefixLines (text ++ "\n" ++ rest) mark =
      mark ++ String.ofList (shift mark.toList text.toList) ++ "\n" ++ prefixLines rest mark := by
  have hne : text ++ "\n" ++ rest ≠ "" := by simp
  rw [← String.toList_inj, toList_prefixLines hne]
  have chars : (text ++ "\n" ++ rest).toList = text.toList ++ '\n' :: rest.toList := by simp
  rw [chars, markTail_append _ _ (List.cons_ne_nil _ _), markTail]
  by_cases empty : rest = ""
  · simp [empty, markTail]
  · have later : rest.toList ≠ [] := fun hnil => empty (String.toList_eq_nil_iff.mp hnil)
    simp [later, toList_prefixLines empty]

/-- A mark goes to the front of each of the lines. -/
theorem prefixLines_wholeLines {ls : List String} (h : ∀ line ∈ ls, '\n' ∉ line.toList)
    (mark : String) : prefixLines (wholeLines ls) mark = wholeLines (ls.map (mark ++ ·)) := by
  induction ls with
  | nil => rfl
  | cons line rest ih =>
      obtain ⟨own, others⟩ := List.forall_mem_cons.mp h
      rw [wholeLines_cons, prefixLines_append_newline, shift_of_not_mem _ own,
        String.ofList_toList, ih others, List.map_cons, wholeLines_cons]

end BlockScript.Text
