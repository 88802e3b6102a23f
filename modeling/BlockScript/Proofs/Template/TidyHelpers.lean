import BlockScript.Proofs.Template.Tidiness

/-! # Helpers are tidy

The code of a helper is its template with the name filled in. The place for the name is between
characters that are no letters, so no module is mentioned that neither the template nor the name
mentions. -/

namespace BlockScript

open Definitions (namePlaceholder reindent helperCode)

/-- Is the placeholder either not in a line, or only at the first brace, and between characters
that are no letters? -/
def isFillable (cs : List Char) : Bool :=
  let front := cs.takeWhile (· ≠ '\x7b')
  let back := (cs.dropWhile (· ≠ '\x7b')).drop 4
  !Text.holdsText ['\x7b', 'f', 'n', '\x7d'] cs ||
    (cs.dropWhile (· ≠ '\x7b')).take 4 == ['\x7b', 'f', 'n', '\x7d'] && endsApart front &&
      startsApart back && !Text.holdsText ['\x7b', 'f', 'n', '\x7d'] back

theorem isFillable_of_chars {text : String} {cs : List Char} (literal : text = String.ofList cs)
    (h : isFillable cs = true) : isFillable text.toList = true := by
  rwa [literal, String.toList_ofList]

theorem Helper.isFillable_of_mem_template (h : Helper) :
    ∀ line ∈ h.template, isFillable line.toList = true := by
  cases h <;>
    simp only [template, List.forall_mem_cons, List.not_mem_nil, false_implies, implies_true,
      and_true]
  all_goals repeat' apply And.intro
  all_goals exact isFillable_of_chars rfl (by decide)

section Filled
variable {F : Module → Prop} {line name indent : String}

/-- Filling in a name mentions what the line and the name do. -/
theorem MentionsOnly.fill (h : MentionsOnly F .whole line) (hn : MentionsOnly F .whole name)
    (fillable : isFillable line.toList = true) :
    MentionsOnly F .whole (Text.replaceAll line namePlaceholder name) := by
  have placeholder : namePlaceholder.toList = ['\x7b', 'f', 'n', '\x7d'] := String.toList_ofList
  unfold Text.replaceAll
  rw [placeholder]
  unfold isFillable at fillable
  simp only [Bool.or_eq_true, Bool.and_eq_true, Bool.not_eq_true', beq_iff_eq] at fillable
  rcases fillable with absent | ⟨⟨⟨first, before⟩, behind⟩, once⟩
  · rwa [Text.replaceFrom_of_not_holds absent, String.ofList_toList]
  · let front := line.toList.takeWhile (· ≠ '\x7b')
    let back := (line.toList.dropWhile (· ≠ '\x7b')).drop 4
    have split : line.toList = front ++ (['\x7b', 'f', 'n', '\x7d'] ++ back) := by
      rw [← first, List.take_append_drop, List.takeWhile_append_dropWhile]
    have hfront : ∀ d ∈ front, d ≠ '\x7b' := fun d hd => by
      simpa using List.all_eq_true.mp List.all_takeWhile d hd
    rw [split, Text.replaceFrom_append rfl hfront, Text.replaceFrom_pattern_append (by simp),
      Text.replaceFrom_of_not_holds once, String.ofList_append, String.ofList_append,
      String.ofList_toList]
    have hfrontOnly : MentionsOnly F .whole (String.ofList front) := by
      apply h.of_infix
      rw [String.toList_ofList, split]
      exact (List.prefix_append _ _).isInfix
    have hbackOnly : MentionsOnly F .whole (String.ofList back) := by
      apply h.of_infix
      rw [String.toList_ofList, split]
      exact ((List.suffix_append _ _).trans (List.suffix_append _ _)).isInfix
    have first : endsApart (View.whole.of (String.ofList front)) = true := by
      rwa [View.whole_of, String.toList_ofList]
    have last : startsApart (View.whole.of (String.ofList back)) = true := by
      rwa [View.whole_of, String.toList_ofList]
    rw [MentionsOnly.append_iff (.inl first), MentionsOnly.append_iff (.inr last)]
    exact ⟨hfrontOnly, hn, hbackOnly⟩

theorem MentionsOnly.reindent (h : MentionsOnly F .whole line) (margin : IsMargin F indent) :
    MentionsOnly F .whole (reindent indent line) := by
  unfold Definitions.reindent
  split
  · exact h
  · refine (margin.repeated _).append_iff.mpr (h.of_infix ?_)
    rw [String.toList_ofList]
    exact (List.drop_suffix _ _).isInfix

/-- The code of a helper mentions what its template and its name do. -/
theorem mentionsOnly_helperCode {h : Helper}
    (lines : ∀ line ∈ h.template, MentionsOnly F .whole line) (hn : MentionsOnly F .whole name)
    (margin : IsMargin F indent) : MentionsOnly F .whole (helperCode h.template indent name) := by
  refine (MentionsOnly.intercalate_literal (joins_of_chars rfl (by decide))).mpr ?_
  intro text ht
  obtain ⟨line, hl, rfl⟩ := List.mem_map.mp ht
  exact ((lines line hl).fill hn (h.isFillable_of_mem_template line hl)).reindent margin

/-- The name of a helper is made of its key, which mentions nothing. -/
theorem mentionsOnly_of_isMadeOf_key {h : Helper} (made : Names.IsMadeOf h.key name) :
    MentionsOnly F .whole name := by
  have plain : isPlain [] h.key = true := by
    cases h <;> exact joins_of_chars rfl (by decide)
  obtain ⟨i, rfl⟩ := made
  exact (MentionsOnly.literal plain).candidate i .whole

end Filled

end BlockScript
