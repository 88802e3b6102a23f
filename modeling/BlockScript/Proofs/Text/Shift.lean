import BlockScript.Text.Quoted
import Mathlib.Logic.Function.Iterate

/-! # Text that is shifted with its lines

Putting a mark in front of every line of a text puts it also behind every newline that some part
of the text has. A part with newlines is therefore not the same after that, and one without is. -/

namespace BlockScript.Text

/-- Put a mark behind every newline. -/
def shift (mark cs : List Char) : List Char :=
  cs.flatMap fun c => if c = '\n' then c :: mark else [c]

section Shift
variable (mark : List Char)

@[simp] theorem shift_nil : shift mark [] = [] := rfl

@[simp] theorem shift_cons (c : Char) (cs : List Char) :
    shift mark (c :: cs) = (if c = '\n' then c :: mark else [c]) ++ shift mark cs := rfl

@[simp] theorem shift_append (xs ys : List Char) :
    shift mark (xs ++ ys) = shift mark xs ++ shift mark ys := by
  simp [shift]

/-- Text on one line stays as it is. -/
theorem shift_of_not_mem {cs : List Char} (h : '\n' ∉ cs) : shift mark cs = cs := by
  induction cs with
  | nil => rfl
  | cons c rest ih =>
      rw [List.mem_cons, not_or] at h
      rw [shift_cons, if_neg (Ne.symm h.1), ih h.2]
      rfl

theorem newline_mem_shift {cs : List Char} (h : '\n' ∈ cs) : '\n' ∈ shift mark cs := by
  rw [shift, List.mem_flatMap]
  exact ⟨'\n', h, by simp⟩

theorem length_le_length_shift (cs : List Char) : cs.length ≤ (shift mark cs).length := by
  induction cs with
  | nil => simp
  | cons c rest ih =>
      rw [shift_cons, List.length_append, List.length_cons]
      split <;> simp only [List.length_cons, List.length_nil] <;> omega

/-- A mark that is not empty makes a text with newlines longer. -/
theorem length_lt_length_shift {cs : List Char} (hm : mark ≠ []) (h : '\n' ∈ cs) :
    cs.length < (shift mark cs).length := by
  obtain ⟨before, after, rfl⟩ := List.append_of_mem h
  have hmark : 0 < mark.length := List.length_pos_iff.mpr hm
  have hbefore := length_le_length_shift mark before
  have hafter := length_le_length_shift mark after
  simp only [shift_append, shift_cons, if_true, List.length_append, List.length_cons]
  omega

/-- Text with newlines grows each time it is shifted. -/
theorem length_lt_length_iterate_shift {cs : List Char} (hm : mark ≠ []) (h : '\n' ∈ cs) (n : Nat) :
    '\n' ∈ (shift mark)^[n] cs ∧ cs.length + n ≤ ((shift mark)^[n] cs).length := by
  induction n with
  | zero => exact ⟨h, Nat.le_refl _⟩
  | succ n ih =>
      obtain ⟨hmem, hlen⟩ := ih
      rw [Function.iterate_succ_apply']
      have hlt := length_lt_length_shift mark hm hmem
      exact ⟨newline_mem_shift mark hmem, by omega⟩

/-- Shifting a text any number of times leaves it as it is exactly if it is never shifted, if the
mark is empty, or if the text is on one line. -/
theorem iterate_shift_eq_self_iff (cs : List Char) (n : Nat) :
    (shift mark)^[n] cs = cs ↔ n = 0 ∨ mark = [] ∨ '\n' ∉ cs := by
  constructor
  · intro h
    by_contra hno
    rw [not_or, not_or, not_not] at hno
    obtain ⟨hn, hm, hmem⟩ := hno
    have hlen := (length_lt_length_iterate_shift mark hm hmem n).2
    rw [h] at hlen
    omega
  · rintro (rfl | rfl | h)
    · rfl
    · have hid : shift [] cs = cs := by
        simp [shift]
      exact Function.iterate_fixed hid n
    · exact Function.iterate_fixed (shift_of_not_mem mark h) n

/-- Marks go behind all newlines of a text that is not the last one. -/
theorem markTail_append (xs : List Char) {ys : List Char} (h : ys ≠ []) :
    markTail mark (xs ++ ys) = shift mark xs ++ markTail mark ys := by
  induction xs with
  | nil => rfl
  | cons c rest ih =>
      have hne : rest ++ ys ≠ [] := List.append_ne_nil_of_right_ne_nil rest h
      rw [List.cons_append, markTail, ih, shift_cons]
      by_cases hc : c = '\n'
      · simp [hc, h]
      · simp [hc]

theorem markTail_eq_nil_iff (cs : List Char) : markTail mark cs = [] ↔ cs = [] := by
  cases cs with
  | nil => simp [markTail]
  | cons c rest =>
      rw [markTail]
      split <;> simp

/-- What is put behind all newlines and not behind the last one differ by the mark at the end. -/
theorem shift_eq_markTail (cs : List Char) :
    shift mark cs = markTail mark cs ++ if cs.getLast? = some '\n' then mark else [] := by
  induction cs with
  | nil => rfl
  | cons c rest ih =>
      by_cases last : rest = []
      · subst last
        by_cases hc : c = '\n' <;> simp [markTail, hc]
      · have ends : (c :: rest).getLast? = rest.getLast? := by
          obtain ⟨d, more, rfl⟩ := List.exists_cons_of_ne_nil last
          exact List.getLast?_cons_cons
        rw [shift_cons, ih, markTail, ends]
        by_cases hc : c = '\n' <;> simp [hc, last]

/-- Marks that are put behind the newlines of marked text go in front of the marks there, and into
them if they have newlines of their own. -/
theorem markTail_markTail (outer cs : List Char) :
    markTail outer (markTail mark cs) = markTail (outer ++ shift outer mark) cs := by
  induction cs with
  | nil => rfl
  | cons c rest ih =>
      rw [markTail, markTail]
      by_cases breaks : c = '\n' ∧ rest ≠ []
      · have filled : markTail mark rest ≠ [] := (markTail_eq_nil_iff mark rest).not.mpr breaks.2
        have opened : mark ++ markTail mark rest ≠ [] :=
          List.append_ne_nil_of_right_ne_nil mark filled
        rw [if_pos breaks, if_pos breaks, markTail, if_pos ⟨breaks.1, opened⟩,
          markTail_append outer mark filled, ih, List.append_assoc]
      · have unbroken : ¬ (c = '\n' ∧ markTail mark rest ≠ []) := by
          rwa [ne_eq, markTail_eq_nil_iff]
        rw [if_neg breaks, if_neg breaks, markTail, if_neg unbroken, ih]

theorem length_markTail_le (cs : List Char) {mark' : List Char} (h : mark.length ≤ mark'.length) :
    (markTail mark cs).length ≤ (markTail mark' cs).length := by
  induction cs with
  | nil => exact Nat.le_refl 0
  | cons c rest ih =>
      rw [markTail, markTail]
      split <;> simp only [List.length_cons, List.length_append] <;> omega

end Shift

/-- Does a text hold a line, up to its newline? The line may have newlines of its own. -/
def HoldsLine (line : List Char) (text : String) : Prop := line ++ ['\n'] <:+: text.toList

variable {line : List Char} {text : String}

theorem HoldsLine.append (h : HoldsLine line text) (before after : String) :
    HoldsLine line (before ++ text ++ after) := by
  refine List.IsInfix.trans h ⟨before.toList, after.toList, ?_⟩
  simp

/-- A line that is held is held, shifted, once all lines have a mark in front. -/
theorem HoldsLine.prefixLines (h : HoldsLine line text) (mark : String) :
    HoldsLine (shift mark.toList line) (prefixLines text mark) := by
  obtain ⟨before, after, htext⟩ := h
  have htail : ∃ rest, markTail mark.toList ('\n' :: after) = '\n' :: rest := by
    unfold markTail
    split <;> exact ⟨_, rfl⟩
  obtain ⟨rest, htail⟩ := htail
  have hcs : text.toList = (before ++ line) ++ '\n' :: after := by
    simp [← htext]
  have hne : text.toList ≠ [] := by
    simp [hcs]
  have hmarked : (Text.prefixLines text mark).toList =
      mark.toList ++ markTail mark.toList text.toList := by
    unfold Text.prefixLines
    split
    · next hnil => exact absurd hnil hne
    · simp
  refine ⟨mark.toList ++ shift mark.toList before, rest, ?_⟩
  rw [hmarked, hcs, markTail_append _ _ (List.cons_ne_nil _ _), htail]
  simp

/-- A newline stands in the literal of a text exactly if it stands in the text. -/
theorem newline_mem_quote (text : String) : '\n' ∈ (quote text).toList ↔ '\n' ∈ text.toList := by
  have hchar (c : Char) : '\n' ∈ escapeChar c ↔ c = '\n' := by
    unfold escapeChar
    split <;> simp [eq_comm]
  simp [escape, hchar]

/-- The literal of a text, shifted with the lines around it as often as they are. -/
def shiftedQuote (indent : String) (depth : Nat) (text : String) : String :=
  String.ofList ((shift indent.toList)^[depth] (quote text).toList)

/-- The literal is still that of the text exactly if it is never shifted, if nothing is put in
front of lines, or if the text is on one line. -/
theorem shiftedQuote_eq_quote_iff (indent : String) (depth : Nat) (text : String) :
    shiftedQuote indent depth text = quote text ↔
      depth = 0 ∨ indent = "" ∨ '\n' ∉ text.toList := by
  have hempty : indent.toList = [] ↔ indent = "" := by
    rw [← String.toList_inj]
    rfl
  rw [← newline_mem_quote, ← hempty, ← iterate_shift_eq_self_iff indent.toList (quote text).toList,
    ← String.toList_inj, shiftedQuote, String.toList_ofList]

end BlockScript.Text
