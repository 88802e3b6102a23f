import Mathlib.Data.List.Infix
import BlockScript.Text.Replace

/-! # What replacement does

A text without the pattern stays as it is, one with the pattern holds the new text, and what stands
between the occurrences stays there. -/

namespace BlockScript.Text

variable {pattern new front cs : List Char} {c : Char}

theorem holdsText_iff (pattern cs : List Char) : holdsText pattern cs = true ↔ pattern <:+: cs := by
  induction cs with
  | nil => simp [holdsText]
  | cons c rest ih => simp [holdsText, ih, List.infix_cons_iff]

theorem replaceFrom_of_not_holds (h : holdsText pattern cs = false) :
    replaceFrom pattern new 0 cs = cs := by
  induction cs with
  | nil => rfl
  | cons c rest ih =>
      simp only [holdsText, Bool.or_eq_false_iff] at h
      rw [replaceFrom, if_neg (by simp [h.1]), ih h.2]

/-- Where the pattern was, the new text is. -/
theorem holdsText_replaceFrom (hne : pattern ≠ []) (h : holdsText pattern cs = true) :
    holdsText new (replaceFrom pattern new 0 cs) = true := by
  induction cs with
  | nil => simp [holdsText, hne] at h
  | cons c rest ih =>
      rw [replaceFrom]
      split
      · exact (holdsText_iff _ _).mpr (List.prefix_append _ _).isInfix
      · next other =>
          have later : holdsText pattern rest = true := by simpa [holdsText, other] using h
          simp [holdsText, ih later]

theorem mem_replaceFrom {skip : Nat} (h : c ∈ replaceFrom pattern new skip cs) :
    c ∈ new ∨ c ∈ cs := by
  induction cs generalizing skip with
  | nil => simp at h
  | cons d rest ih =>
      cases skip with
      | succ n => exact (ih h).imp_right (List.mem_cons_of_mem d)
      | zero =>
          rw [replaceFrom] at h
          split at h
          · rcases List.mem_append.mp h with h | h
            · exact .inl h
            · exact (ih h).imp_right (List.mem_cons_of_mem d)
          · rcases List.mem_cons.mp h with rfl | h
            · exact .inr List.mem_cons_self
            · exact (ih h).imp_right (List.mem_cons_of_mem d)

/-- Nothing is replaced before the first character of the pattern. -/
theorem replaceFrom_append (h : pattern.head? = some c) (hfront : ∀ d ∈ front, d ≠ c) :
    replaceFrom pattern new 0 (front ++ cs) = front ++ replaceFrom pattern new 0 cs := by
  induction front with
  | nil => rfl
  | cons d rest ih =>
      obtain ⟨hd, hrest⟩ := List.forall_mem_cons.mp hfront
      obtain ⟨tail, rfl⟩ : ∃ tail, pattern = c :: tail := List.head?_eq_some_iff.mp h
      rw [List.cons_append, replaceFrom, if_neg (by simp [Ne.symm hd]), ih hrest, List.cons_append]

/-- A last character that is not in the pattern stays at the end. -/
theorem replaceFrom_concat {skip : Nat} (hne : pattern ≠ []) (hc : c ∉ pattern)
    (hskip : skip ≤ cs.length) :
    replaceFrom pattern new skip (cs ++ [c]) = replaceFrom pattern new skip cs ++ [c] := by
  have starts (d : List Char) : pattern <+: d ++ [c] ↔ pattern <+: d := by
    rw [List.prefix_concat_iff]
    refine or_iff_right ?_
    rintro rfl
    exact hc (by simp)
  induction cs generalizing skip with
  | nil =>
      obtain rfl := Nat.le_zero.mp hskip
      have other : ¬ pattern <+: [c] := fun h => hne (List.prefix_nil.mp ((starts []).mp h))
      simp [replaceFrom, other]
  | cons d rest ih =>
      cases skip with
      | succ n => exact ih (Nat.le_of_succ_le_succ hskip)
      | zero =>
          have same : pattern <+: d :: (rest ++ [c]) ↔ pattern <+: d :: rest := starts (d :: rest)
          simp only [List.cons_append, replaceFrom, List.isPrefixOf_iff_prefix, same]
          split
          · next h =>
              have := h.length_le
              rw [ih (by simp at this; omega), List.append_assoc]
          · rw [ih (Nat.zero_le _), List.cons_append]

theorem replaceFrom_pattern_append (hne : pattern ≠ []) :
    replaceFrom pattern new 0 (pattern ++ cs) = new ++ replaceFrom pattern new 0 cs := by
  obtain ⟨c, tail, rfl⟩ := List.exists_cons_of_ne_nil hne
  have starts : (c :: tail).isPrefixOf (c :: tail ++ cs) = true :=
    List.isPrefixOf_iff_prefix.mpr (List.prefix_append _ _)
  rw [List.cons_append] at starts ⊢
  rw [replaceFrom, if_pos starts, replaceFrom_skip]
  simp

/-- A text is cut wherever the pattern stands, from left to right, and replacing puts the new text
between the pieces. -/
theorem exists_pieces (hne : pattern ≠ []) (cs : List Char) :
    ∃ pieces, cs = pattern.intercalate pieces ∧
      (∀ piece ∈ pieces, holdsText pattern piece = false) ∧
      ∀ new, replaceFrom pattern new 0 cs = new.intercalate pieces := by
  -- A cut is followed by less text, so the induction is on the length.
  suffices h : ∃ first more, cs = pattern.intercalate (first :: more) ∧
      (∀ piece ∈ first :: more, holdsText pattern piece = false) ∧
      ∀ new, replaceFrom pattern new 0 cs = new.intercalate (first :: more) by
    obtain ⟨first, more, h⟩ := h
    exact ⟨first :: more, h⟩
  have empty : holdsText pattern [] = false := by simp [holdsText, hne]
  induction hl : cs.length using Nat.strong_induction_on generalizing cs with
  | _ length ih =>
      subst hl
      by_cases starts : pattern <+: cs
      · obtain ⟨back, rfl⟩ := starts
        have shorter : back.length < (pattern ++ back).length := by
          have := List.length_pos_of_ne_nil hne
          rw [List.length_append]
          omega
        obtain ⟨first, more, rfl, apart, replaced⟩ := ih _ shorter back rfl
        refine ⟨[], first :: more, ?_, List.forall_mem_cons.mpr ⟨empty, apart⟩, fun new => ?_⟩
        · simp [List.intercalate_cons_cons]
        · simp [replaceFrom_pattern_append hne, replaced, List.intercalate_cons_cons]
      cases cs with
      | nil => exact ⟨[], [], by simp, by simpa using empty, by simp⟩
      | cons c rest =>
          obtain ⟨first, more, whole, apart, replaced⟩ := ih _ (Nat.lt_succ_self _) rest rfl
          obtain ⟨own, others⟩ := List.forall_mem_cons.mp apart
          have longer (sep : List Char) :
              sep.intercalate ((c :: first) :: more) = c :: sep.intercalate (first :: more) := by
            cases more <;> simp [List.intercalate_cons_cons]
          -- The first piece starts the text, so the pattern does not start the piece.
          have within : c :: first <+: c :: rest := by
            rw [whole]
            cases more <;> simp [List.intercalate_cons_cons]
          have outside : pattern.isPrefixOf (c :: first) = false := by
            rw [Bool.eq_false_iff, ne_eq, List.isPrefixOf_iff_prefix]
            exact fun h => starts (h.trans within)
          refine ⟨c :: first, more, ?_, List.forall_mem_cons.mpr ⟨?_, others⟩, fun new => ?_⟩
          · rw [longer, ← whole]
          · simp [holdsText, own, outside]
          · rw [longer, replaceFrom, if_neg (by simpa using starts), replaced]

/-- A text with something new in each place where a pattern stood. -/
def IsReplacement (pattern new text result : String) : Prop :=
  ∃ pieces : List (List Char), text.toList = pattern.toList.intercalate pieces ∧
    (∀ piece ∈ pieces, holdsText pattern.toList piece = false) ∧
    result.toList = new.toList.intercalate pieces

theorem isReplacement_replaceAll {pattern : String} (hne : pattern.toList ≠ [])
    (text new : String) : IsReplacement pattern new text (replaceAll text pattern new) := by
  obtain ⟨pieces, whole, apart, replaced⟩ := exists_pieces hne text.toList
  refine ⟨pieces, whole, apart, ?_⟩
  rw [replaceAll, String.toList_ofList, replaced]

end BlockScript.Text
