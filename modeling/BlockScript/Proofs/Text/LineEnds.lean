import BlockScript.Proofs.Text.Replacement
import BlockScript.Proofs.Text.Shift

/-! # Ends of lines

A text that is empty or ends with a newline leaves nothing unfinished: what follows it starts on a
line of its own. -/

namespace BlockScript.Text

/-- A text whose last line is ended by a newline. -/
def EndsLine (text : String) : Prop := text.toList.getLast? = some '\n'

instance (text : String) : Decidable (EndsLine text) :=
  inferInstanceAs (Decidable (text.toList.getLast? = some '\n'))

/-- A text after which a line starts: it is empty or ends its last line. -/
def IsLineComplete (text : String) : Prop := text = "" ∨ EndsLine text

variable {text : String}

theorem EndsLine.ne_empty (h : EndsLine text) : text ≠ "" := by
  rintro rfl
  exact absurd h (by decide)

theorem isLineComplete_iff_of_ne_empty (h : text ≠ "") : IsLineComplete text ↔ EndsLine text :=
  or_iff_right h

/-- The end of two texts in a row is that of the second. -/
theorem endsLine_append_iff {front : String} (h : text ≠ "") :
    EndsLine (front ++ text) ↔ EndsLine text := by
  have hne : text.toList ≠ [] := fun hnil => h (String.toList_eq_nil_iff.mp hnil)
  rw [EndsLine, EndsLine, String.toList_append, List.getLast?_append_of_ne_nil _ hne]

theorem isLineComplete_append_iff {front : String} (h : text ≠ "") :
    IsLineComplete (front ++ text) ↔ IsLineComplete text := by
  have hne : front ++ text ≠ "" := fun hempty => h (String.append_eq_empty_iff.mp hempty).2
  rw [isLineComplete_iff_of_ne_empty h, isLineComplete_iff_of_ne_empty hne, endsLine_append_iff h]

theorem EndsLine.append (front : String) (h : EndsLine text) : EndsLine (front ++ text) :=
  (endsLine_append_iff h.ne_empty).mpr h

/-- The last line of a text is not ended by another character. -/
theorem not_endsLine_of_getLast? {c : Char} (h : text.toList.getLast? = some c) (hc : c ≠ '\n') :
    ¬ EndsLine text := by
  intro hends
  exact hc (Option.some.inj (h.symm.trans hends))

theorem EndsLine.exists_eq (h : EndsLine text) : ∃ cs, text.toList = cs ++ ['\n'] :=
  ⟨_, (List.dropLast_append_getLast? _ h).symm⟩

/-- The lines of an instantiated template end as those of the template do. -/
theorem EndsLine.injectId (h : EndsLine text) (id : String) : EndsLine (injectId text id) := by
  obtain ⟨cs, hcs⟩ := h.exists_eq
  have hlast : (Text.injectId text id).toList =
      replaceFrom "%1".toList ("'" ++ id ++ "'").toList 0 cs ++ ['\n'] := by
    rw [Text.injectId, replaceAll, String.toList_ofList, hcs]
    exact replaceFrom_concat (by decide) (by decide) (Nat.zero_le _)
  rw [EndsLine, hlast, List.getLast?_concat]

theorem getLast?_markTail (mark cs : List Char) : (markTail mark cs).getLast? = cs.getLast? := by
  induction cs with
  | nil => rfl
  | cons c rest ih =>
      cases rest with
      | nil => simp [markTail]
      | cons d more =>
          have hne : markTail mark (d :: more) ≠ [] :=
            (markTail_eq_nil_iff mark _).not.mpr (List.cons_ne_nil _ _)
          rw [markTail, List.getLast?_cons_cons, ← ih]
          split
          · rw [List.getLast?_cons, List.getLast?_append_of_ne_nil _ hne]
            simp [List.getLast?_eq_some_getLast hne]
          · simp [List.getLast?_cons, List.getLast?_eq_some_getLast hne]

theorem getLast?_prefixLines (text mark : String) :
    (prefixLines text mark).toList.getLast? = text.toList.getLast? := by
  unfold prefixLines
  split
  · next h => rw [h]; rfl
  · next hne =>
      have hlast := List.getLast?_eq_some_getLast hne
      rw [String.toList_ofList, List.getLast?_append, getLast?_markTail, hlast, Option.some_or]

/-- Nothing is put in front of nothing. -/
theorem prefixLines_eq_empty_iff (text mark : String) : prefixLines text mark = "" ↔ text = "" := by
  rw [← String.toList_eq_nil_iff, ← String.toList_eq_nil_iff, ← List.getLast?_eq_none_iff,
    ← List.getLast?_eq_none_iff, getLast?_prefixLines]

theorem endsLine_prefixLines_iff (text mark : String) :
    EndsLine (prefixLines text mark) ↔ EndsLine text := by
  rw [EndsLine, EndsLine, getLast?_prefixLines]

/-- Indentation leaves the end of a text as it is. -/
theorem isLineComplete_prefixLines (text mark : String) :
    IsLineComplete (prefixLines text mark) ↔ IsLineComplete text :=
  or_congr (prefixLines_eq_empty_iff text mark) (endsLine_prefixLines_iff text mark)

end BlockScript.Text
