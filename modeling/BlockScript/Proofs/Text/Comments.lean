import Mathlib.Data.List.Infix
import BlockScript.Text.Lines

/-! # Comments of whole lines

A text of whole lines is a comment if each of its lines starts with two slashes. Text that is put
into a comment keeps it one exactly if every line break in the text is followed by two slashes. -/

namespace BlockScript.Text

/-- What a comment line starts with. -/
def slashes : List Char := ['/', '/']

/-- A text of whole lines, each of which starts with slashes. -/
def IsComment (text : String) : Prop :=
  ∃ body, text = body ++ "\n" ∧ ∀ line ∈ lines body, slashes <+: line.toList

/-- Is every line break in a text followed by slashes? -/
def marksBreaks : List Char → Bool
  | [] => true
  | c :: rest => (c != '\n' || slashes.isPrefixOf rest) && marksBreaks rest

/-- What stands before the first line break does not matter. -/
theorem marksBreaks_append_of_not_mem {xs ys : List Char} (h : '\n' ∉ xs) :
    marksBreaks (xs ++ ys) = marksBreaks ys := by
  induction xs with
  | nil => rfl
  | cons c rest ih =>
      obtain ⟨other, later⟩ := not_or.mp (List.mem_cons.not.mp h)
      simp [marksBreaks, Ne.symm other, ih later]

/-- Text on one line has no line breaks to be marked. -/
theorem marksBreaks_of_not_mem {cs : List Char} (h : '\n' ∉ cs) : marksBreaks cs = true := by
  have cut : marksBreaks (cs ++ []) = marksBreaks [] := marksBreaks_append_of_not_mem h
  simpa [marksBreaks] using cut

/-- Texts in a row are marked exactly if each is, where the second does not start with a slash. -/
theorem marksBreaks_append {xs ys : List Char} {c : Char} (hc : c ≠ '/') :
    marksBreaks (xs ++ c :: ys) = (marksBreaks xs && marksBreaks (c :: ys)) := by
  induction xs with
  | nil => rfl
  | cons x rest ih =>
      -- Slashes at the start of the first text are not completed by the second.
      have starts : slashes.isPrefixOf (rest ++ c :: ys) = slashes.isPrefixOf rest := by
        rcases rest with _ | ⟨a, _ | ⟨b, more⟩⟩
        · simp [slashes, List.isPrefixOf, Ne.symm hc]
        · simp [slashes, List.isPrefixOf, Ne.symm hc]
        · simp [slashes, List.isPrefixOf]
      rw [List.cons_append, marksBreaks, marksBreaks, ih, starts, Bool.and_assoc]

/-- Is a text some words, which have no part in line breaks? -/
def isWords (text : String) : Bool :=
  text != "" && text.toList.all fun c => c != '\n' && c != '/'

/-- Of texts with words between them, the line breaks are those in the texts. -/
theorem marksBreaks_parts {parts : List (String × String)}
    (words : ∀ part ∈ parts, isWords part.2 = true) :
    marksBreaks (parts.flatMap fun part => part.1.toList ++ part.2.toList) = true ↔
      ∀ part ∈ parts, marksBreaks part.1.toList = true := by
  induction parts with
  | nil => simp [marksBreaks]
  | cons part rest ih =>
      obtain ⟨own, others⟩ := List.forall_mem_cons.mp words
      obtain ⟨nonempty, plain⟩ := Bool.and_eq_true_iff.mp own
      have plain (c : Char) (hc : c ∈ part.2.toList) : c ≠ '\n' ∧ c ≠ '/' := by
        simpa using List.all_eq_true.mp plain c hc
      have oneLine : '\n' ∉ part.2.toList := fun h => (plain _ h).1 rfl
      obtain ⟨c, more, hwords⟩ : ∃ c more, part.2.toList = c :: more :=
        List.exists_cons_of_ne_nil fun hnil => by
          simp [String.toList_eq_nil_iff.mp hnil] at nonempty
      have notSlash : c ≠ '/' := (plain c (hwords ▸ List.mem_cons_self)).2
      rw [List.flatMap_cons, List.forall_mem_cons, ← ih others, List.append_assoc, hwords,
        List.cons_append, marksBreaks_append notSlash, ← List.cons_append, ← hwords,
        marksBreaks_append_of_not_mem oneLine, Bool.and_eq_true]

/-- The first line of a text, and whether the others start with slashes. -/
theorem exists_splitLines_eq (cs : List Char) :
    ∃ first others, splitLines cs = first :: others ∧
      (∀ start : List Char, '\n' ∉ start → (start <+: first ↔ start <+: cs)) ∧
      ((∀ line ∈ others, slashes <+: line) ↔ marksBreaks cs = true) := by
  induction cs with
  | nil => exact ⟨[], [], rfl, fun _ _ => Iff.rfl, by simp [marksBreaks]⟩
  | cons c rest ih =>
      obtain ⟨first, others, split, starts, marked⟩ := ih
      by_cases hc : c = '\n'
      · refine ⟨[], first :: others, by simp [splitLines, hc, split], fun start hstart => ?_, ?_⟩
        · cases start with
          | nil => simp
          | cons d more =>
              have hd : d ≠ c := fun h => hstart (by simp [h, hc])
              simp [hd]
        · rw [List.forall_mem_cons, marked, starts slashes (by decide)]
          simp [marksBreaks, hc]
      · refine ⟨c :: first, others, by simp [splitLines, hc, split], fun start hstart => ?_, ?_⟩
        · cases start with
          | nil => simp
          | cons d more =>
              have hmore : '\n' ∉ more := fun h => hstart (List.mem_cons_of_mem _ h)
              rw [List.cons_prefix_cons, List.cons_prefix_cons, starts more hmore]
        · rw [marked]
          simp [marksBreaks, hc]

/-- A text that starts with slashes is a comment exactly if its line breaks are marked. -/
theorem isComment_iff {body : String} (h : slashes <+: body.toList) :
    IsComment (body ++ "\n") ↔ marksBreaks body.toList = true := by
  obtain ⟨first, others, split, starts, marked⟩ := exists_splitLines_eq body.toList
  have whole : (∀ line ∈ lines body, slashes <+: line.toList) ↔ marksBreaks body.toList = true := by
    simp only [lines, split, List.map_cons, List.forall_mem_cons, List.forall_mem_map,
      String.toList_ofList, marked]
    exact and_iff_right ((starts slashes (by decide)).mpr h)
  rw [← whole]
  constructor
  · rintro ⟨body', same, all⟩
    obtain rfl := String.append_left_inj "\n" |>.mp same
    exact all
  · exact fun all => ⟨body, rfl, all⟩

end BlockScript.Text
