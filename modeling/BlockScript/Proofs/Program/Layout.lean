import BlockScript.Program
import Mathlib.Data.List.Chain
import Mathlib.Data.List.DropRight

/-! # What tidying takes out

Each rewrite of the layout takes out white space and nothing else. Three of them lead to a normal
form: no newline behind the blanks that start a text, none in front of blanks that end it, and none
behind a space or a tab. The last of the three keeps the normal forms of the other two, so that
running all of them again changes nothing. -/

namespace BlockScript.Layout

open Text

/-- A text without its white space. -/
def ink (cs : List Char) : List Char := cs.filter fun c => !isBlank c

/-- A text of white space only. -/
def AllBlank (cs : List Char) : Prop := ∀ c ∈ cs, isBlank c = true

instance : DecidablePred AllBlank := fun cs => List.decidableBAll (fun c => isBlank c = true) cs

variable {c : Char} {cs xs ys held front back : List Char}

@[simp] theorem isBlank_newline : isBlank '\n' = true := by decide

theorem AllBlank.nil : AllBlank [] := fun _ h => absurd h List.not_mem_nil

theorem AllBlank.of_newlines (h : ∀ c ∈ cs, c = '\n') : AllBlank cs := by
  intro c hc
  rw [h c hc]
  exact isBlank_newline

theorem isBlank_of_isSpaceOrTab (h : isSpaceOrTab c = true) : isBlank c = true := by
  rcases Bool.or_eq_true_iff.mp h with h | h <;> rw [eq_of_beq h] <;> decide

@[simp] theorem ink_nil : ink [] = [] := rfl

@[simp] theorem ink_append (xs ys : List Char) : ink (xs ++ ys) = ink xs ++ ink ys :=
  List.filter_append ..

theorem ink_cons_of_blank (h : isBlank c = true) (cs : List Char) : ink (c :: cs) = ink cs := by
  simp [ink, h]

theorem ink_cons_congr (c : Char) (h : ink xs = ink ys) : ink (c :: xs) = ink (c :: ys) := by
  simp only [ink, List.filter_cons] at h ⊢
  rw [h]

theorem ink_eq_nil_iff : ink cs = [] ↔ AllBlank cs := by
  simp [ink, AllBlank]

theorem ink_append_of_allBlank (h : AllBlank ys) : ink (xs ++ ys) = ink xs := by
  rw [ink_append, ink_eq_nil_iff.mpr h, List.append_nil]

theorem AllBlank.ink_append (h : AllBlank xs) : ink (xs ++ ys) = ink ys := by
  rw [Layout.ink_append, ink_eq_nil_iff.mpr h, List.nil_append]

/-- A character of a text in two parts is in the first part or in the second one. -/
theorem cut_cases (h : front ++ c :: back = xs ++ ys) :
    (∃ more, xs = front ++ c :: more ∧ back = more ++ ys) ∨
      ∃ more, front = xs ++ more ∧ ys = more ++ c :: back := by
  rcases List.append_eq_append_iff.mp h with ⟨more, rfl, cut⟩ | ⟨more, rfl, rfl⟩
  · cases more with
    | nil => exact .inr ⟨[], by simp, cut.symm⟩
    | cons d more =>
        obtain ⟨rfl, rfl⟩ := List.cons.inj cut
        exact .inl ⟨more, rfl, rfl⟩
  · exact .inr ⟨more, rfl, rfl⟩

/-! What each rewrite takes out. -/

theorem ink_limitNewlines (seen : Nat) (cs : List Char) : ink (limitNewlines seen cs) = ink cs := by
  induction cs generalizing seen with
  | nil => rfl
  | cons c rest ih =>
      rw [limitNewlines]
      split
      · next newline =>
          subst newline
          split <;> simp [ink_cons_of_blank, ih]
      · exact ink_cons_congr c (ih 0)

theorem ink_dropLineEnds (blank : AllBlank held) (cs : List Char) :
    ink (dropLineEnds held cs) = ink cs := by
  induction cs generalizing held with
  | nil => exact ink_eq_nil_iff.mpr blank
  | cons c rest ih =>
      rw [dropLineEnds]
      split
      · next space =>
          have blankC := isBlank_of_isSpaceOrTab space
          have more : AllBlank (held ++ [c]) :=
            List.forall_mem_append.mpr ⟨blank, List.forall_mem_singleton.mpr blankC⟩
          rw [ih more, ink_cons_of_blank blankC]
      · split
        · exact ink_cons_congr c (ih .nil)
        · rw [blank.ink_append]
          exact ink_cons_congr c (ih .nil)

theorem exists_dropLastNewlines (cs : List Char) :
    ∃ newlines, cs = dropLastNewlines cs ++ newlines ∧ ∀ c ∈ newlines, c = '\n' := by
  refine ⟨cs.rtakeWhile (· = '\n'), (List.rdropWhile_append_rtakeWhile ..).symm, fun c h => ?_⟩
  simpa using List.mem_rtakeWhile_imp h

theorem afterLastNewline?_eq_none_iff : afterLastNewline? cs = none ↔ '\n' ∉ cs := by
  induction cs with
  | nil => simp [afterLastNewline?]
  | cons c rest ih =>
      rw [afterLastNewline?, List.mem_cons, not_or, ← ih]
      cases afterLastNewline? rest with
      | some tail => simp
      | none => simp [eq_comm]

/-- A text is cut at its last newline. -/
theorem exists_of_afterLastNewline? (h : afterLastNewline? cs = some back) :
    ∃ front, cs = front ++ '\n' :: back ∧ '\n' ∉ back := by
  induction cs with
  | nil => exact nomatch h
  | cons c rest ih =>
      rw [afterLastNewline?] at h
      cases later : afterLastNewline? rest with
      | some tail =>
          rw [later] at h
          obtain ⟨front, rfl, last⟩ := ih (later.trans h)
          exact ⟨c :: front, rfl, last⟩
      | none =>
          simp only [later] at h
          split at h
          · next newline =>
              obtain rfl := Option.some.inj h
              exact ⟨[], by rw [newline]; rfl, afterLastNewline?_eq_none_iff.mp later⟩
          · exact nomatch h

/-! Normal forms. -/

/-- No newline stands behind the blanks that start a text, unless it is the first character. -/
def CleanStart (cs : List Char) : Prop :=
  ∀ front back, cs = front ++ '\n' :: back → AllBlank front → front = []

/-- Nothing but blanks is behind a newline only if it is the last character. -/
def CleanEnd (cs : List Char) : Prop :=
  ∀ front back, cs = front ++ '\n' :: back → AllBlank back → back = []

/-- No newline stands behind a space or a tab. -/
abbrev CleanLines (cs : List Char) : Prop :=
  cs.IsChain fun c d => d = '\n' → isSpaceOrTab c = false

/-- Behind the blanks that start a text there is no newline that only blanks precede. -/
theorem not_allBlank_of_dropWhile (h : cs.dropWhile isBlank = front ++ '\n' :: back) :
    ¬ AllBlank front := by
  intro blank
  have first : ∀ c ∈ (front ++ '\n' :: back).head?, isBlank c = false := by
    intro c hc
    have inked := List.head?_dropWhile_not isBlank cs
    rw [h, hc] at inked
    exact inked
  cases front with
  | nil => exact absurd (first '\n' rfl) (by decide)
  | cons c rest => exact absurd (blank c List.mem_cons_self) (by simp [first c rfl])

/-- A text keeps the blanks that start it if they hold no newline behind the first character. What
is left of them otherwise is what follows their last newline. -/
theorem dropLeadingBlanks_cases (cs : List Char) :
    dropLeadingBlanks cs = cs ∧ CleanStart cs ∨
      ∃ front back, cs = front ++ '\n' :: dropLeadingBlanks cs ∧ AllBlank front ∧ front ≠ [] ∧
        dropLeadingBlanks cs = back ++ cs.dropWhile isBlank ∧ '\n' ∉ back := by
  cases cs with
  | nil => exact .inl ⟨rfl, fun front back h => by simp at h⟩
  | cons c rest =>
      rw [dropLeadingBlanks]
      split
      · next blank =>
          split
          · next tail later =>
              obtain ⟨front, cut, last⟩ := exists_of_afterLastNewline? later
              have whole : rest = front ++ '\n' :: (tail ++ rest.dropWhile isBlank) := by
                rw [← List.cons_append, ← List.append_assoc, ← cut, List.takeWhile_append_dropWhile]
              refine .inr ⟨c :: front, tail, congrArg (c :: ·) whole, ?_, List.cons_ne_nil c front,
                ?_, last⟩
              · refine List.forall_mem_cons.mpr ⟨blank, fun d hd => ?_⟩
                exact List.mem_takeWhile_imp (cut ▸ List.mem_append_left _ hd)
              · rw [List.dropWhile_cons_of_pos blank]
          · next none =>
              refine .inl ⟨rfl, fun front back split blanks => ?_⟩
              cases front with
              | nil => rfl
              | cons d more =>
                  have later : rest = more ++ '\n' :: back := (List.cons.inj split).2
                  obtain ⟨-, blanks⟩ := List.forall_mem_cons.mp blanks
                  refine absurd ?_ (afterLastNewline?_eq_none_iff.mp none)
                  rw [later, List.takeWhile_append_of_pos blanks,
                    List.takeWhile_cons_of_pos isBlank_newline]
                  exact List.mem_append_right _ List.mem_cons_self
      · next inked =>
          have start : (c :: rest).dropWhile isBlank = c :: rest :=
            List.dropWhile_cons_of_neg inked
          exact .inl ⟨rfl, fun front back split blank =>
            absurd blank (not_allBlank_of_dropWhile (start.trans split))⟩

theorem exists_dropLeadingBlanks (cs : List Char) :
    ∃ blanks, cs = blanks ++ dropLeadingBlanks cs ∧ AllBlank blanks := by
  rcases dropLeadingBlanks_cases cs with ⟨same, -⟩ | ⟨front, -, cut, blank, -⟩
  · exact ⟨[], same.symm, .nil⟩
  · refine ⟨front ++ ['\n'], by simpa using cut, ?_⟩
    exact List.forall_mem_append.mpr ⟨blank, List.forall_mem_singleton.mpr isBlank_newline⟩

/-- Blanks shrink to what stands up to their first newline. -/
theorem shrinkBlanks_prefix (cs : List Char) : shrinkBlanks cs <+: cs := by
  induction cs with
  | nil => exact List.prefix_rfl
  | cons c rest ih =>
      rw [shrinkBlanks]
      split
      · next cut =>
          rw [cut.1]
          exact ⟨rest, rfl⟩
      · exact (List.prefix_cons_inj c).mpr ih

theorem exists_dropTrailingBlanks (cs : List Char) :
    ∃ blanks, cs = dropTrailingBlanks cs ++ blanks ∧ AllBlank blanks := by
  obtain ⟨blanks, cut⟩ := shrinkBlanks_prefix (cs.rtakeWhile isBlank)
  refine ⟨blanks, ?_, fun c hc => List.mem_rtakeWhile_imp (cut ▸ List.mem_append_right _ hc)⟩
  change cs = cs.rdropWhile isBlank ++ shrinkBlanks (cs.rtakeWhile isBlank) ++ blanks
  rw [List.append_assoc, cut, List.rdropWhile_append_rtakeWhile]

theorem cleanStart_dropLeadingBlanks (cs : List Char) : CleanStart (dropLeadingBlanks cs) := by
  rcases dropLeadingBlanks_cases cs with ⟨same, clean⟩ | ⟨-, back, -, -, -, left, last⟩
  · rwa [same]
  · intro front rest split blank
    rw [left] at split
    rcases cut_cases split.symm with ⟨more, rfl, -⟩ | ⟨more, rfl, later⟩
    · exact absurd (List.mem_append_right _ List.mem_cons_self) last
    · exact absurd (fun c hc => blank c (List.mem_append_right _ hc))
        (not_allBlank_of_dropWhile later)

theorem dropLeadingBlanks_of_cleanStart (h : CleanStart cs) : dropLeadingBlanks cs = cs := by
  rcases dropLeadingBlanks_cases cs with ⟨same, -⟩ | ⟨front, -, cut, blank, nonempty, -⟩
  · exact same
  · exact absurd (h front _ cut blank) nonempty

/-- Behind the first newline of shrunken blanks there is nothing. -/
theorem eq_nil_of_shrinkBlanks (h : shrinkBlanks cs = front ++ '\n' :: back) : back = [] := by
  induction cs generalizing front with
  | nil => simp [shrinkBlanks] at h
  | cons c rest ih =>
      rw [shrinkBlanks] at h
      split at h
      · cases front with
        | nil => exact (List.cons.inj h).2.symm
        | cons d more => simp at h
      · next whole =>
          cases front with
          | nil =>
              obtain ⟨newline, shrunk⟩ := List.cons.inj h
              obtain rfl : rest = [] := by_contra fun more => whole ⟨newline, more⟩
              exact shrunk.symm
          | cons d more => exact ih (List.cons.inj h).2

theorem shrinkBlanks_eq_self (h : ∀ front back, cs = front ++ '\n' :: back → back = []) :
    shrinkBlanks cs = cs := by
  induction cs with
  | nil => rfl
  | cons c rest ih =>
      have whole : ¬ (c = '\n' ∧ rest ≠ []) := by
        rintro ⟨rfl, more⟩
        exact more (h [] rest rfl)
      rw [shrinkBlanks, if_neg whole, ih fun front back split => ?_]
      exact h (c :: front) back (congrArg (c :: ·) split)

theorem cleanEnd_dropTrailingBlanks (cs : List Char) : CleanEnd (dropTrailingBlanks cs) := by
  intro front back split blank
  change cs.rdropWhile isBlank ++ shrinkBlanks (cs.rtakeWhile isBlank) = _ at split
  rcases cut_cases split.symm with ⟨more, kept, rfl⟩ | ⟨more, -, shrunk⟩
  · -- What is kept in front ends with a character that is not blank.
    have nonempty : cs.rdropWhile isBlank ≠ [] := by
      rw [kept]
      exact List.append_ne_nil_of_right_ne_nil _ (List.cons_ne_nil _ _)
    have last := List.rdropWhile_last_not isBlank cs nonempty
    have member : (cs.rdropWhile isBlank).getLast nonempty ∈ '\n' :: more := by
      simp only [kept, List.getLast_append_of_ne_nil _ (List.cons_ne_nil _ _)]
      exact List.getLast_mem _
    refine absurd ?_ last
    rcases List.mem_cons.mp member with newline | member
    · rw [newline]
      exact isBlank_newline
    · exact blank _ (List.mem_append_left _ member)
  · exact eq_nil_of_shrinkBlanks shrunk

theorem dropTrailingBlanks_of_cleanEnd (h : CleanEnd cs) : dropTrailingBlanks cs = cs := by
  have whole : cs.rdropWhile isBlank ++ cs.rtakeWhile isBlank = cs :=
    List.rdropWhile_append_rtakeWhile ..
  change cs.rdropWhile isBlank ++ shrinkBlanks (cs.rtakeWhile isBlank) = cs
  rw [shrinkBlanks_eq_self fun front back split => ?_, whole]
  refine h (cs.rdropWhile isBlank ++ front) back ?_ fun c hc => ?_
  · rw [List.append_assoc, ← split, whole]
  · refine List.mem_rtakeWhile_imp (l := cs) ?_
    rw [split]
    exact List.mem_append_right _ (List.mem_cons_of_mem _ hc)

/-- A text of spaces and tabs. -/
def AllSpaces (cs : List Char) : Prop := ∀ c ∈ cs, isSpaceOrTab c = true

theorem AllSpaces.nil : AllSpaces [] := fun _ h => absurd h List.not_mem_nil

theorem AllSpaces.allBlank (h : AllSpaces held) : AllBlank held :=
  fun c hc => isBlank_of_isSpaceOrTab (h c hc)

theorem AllSpaces.concat (h : AllSpaces held) (space : isSpaceOrTab c = true) :
    AllSpaces (held ++ [c]) :=
  List.forall_mem_append.mpr ⟨h, List.forall_mem_singleton.mpr space⟩

theorem AllSpaces.newline_not_mem (h : AllSpaces held) : '\n' ∉ held :=
  fun member => absurd (h _ member) (by decide)

theorem AllSpaces.cleanLines (h : AllSpaces held) : CleanLines held := by
  refine List.isChain_iff_forall_rel_of_append_cons_cons.mpr fun c d front back split newline => ?_
  refine absurd ?_ h.newline_not_mem
  rw [split, newline]
  simp

theorem cleanLines_dropLineEnds (spaces : AllSpaces held) (cs : List Char) :
    CleanLines (dropLineEnds held cs) := by
  induction cs generalizing held with
  | nil => exact spaces.cleanLines
  | cons c rest ih =>
      rw [dropLineEnds]
      split
      · next space => exact ih (spaces.concat space)
      · next other =>
          have behind : CleanLines (c :: dropLineEnds [] rest) :=
            (ih .nil).cons fun d _ _ => eq_false_of_ne_true other
          split
          · exact behind
          · next inLine =>
              refine spaces.cleanLines.append behind fun d _ e he newline => ?_
              obtain rfl := Option.some.inj he
              exact absurd newline inLine

theorem dropLineEnds_of_cleanLines (spaces : AllSpaces held) (h : CleanLines (held ++ cs)) :
    dropLineEnds held cs = held ++ cs := by
  induction cs generalizing held with
  | nil => exact (List.append_nil held).symm
  | cons c rest ih =>
      have later : dropLineEnds [] rest = rest :=
        ih .nil h.right_of_append.tail
      rw [dropLineEnds, later]
      split
      · next space =>
          rw [ih (spaces.concat space) (by simpa using h)]
          simp
      · split
        · next newline =>
            -- Spaces in front of the newline are ruled out.
            rcases held.eq_nil_or_concat' with rfl | ⟨front, d, rfl⟩
            · rfl
            · rw [List.append_assoc, List.singleton_append] at h
              have ended : isSpaceOrTab d = false :=
                (List.isChain_append_cons_cons.mp h).2.1 newline
              exact absurd (spaces d (by simp)) (by simp [ended])
        · rfl

/-- A newline of a text without line ends is one of the text, with the same text behind it once that
has lost its line ends too, and in front of it there are only spaces and tabs less. -/
theorem exists_of_dropLineEnds (spaces : AllSpaces held)
    (h : dropLineEnds held cs = front ++ '\n' :: back) :
    ∃ before behind, cs = before ++ '\n' :: behind ∧ back = dropLineEnds [] behind ∧
      front.Sublist (held ++ before) ∧ ink front = ink before := by
  induction cs generalizing held front with
  | nil =>
      have member : '\n' ∈ dropLineEnds held [] := h ▸ List.mem_append_right _ List.mem_cons_self
      exact absurd member spaces.newline_not_mem
  | cons c rest ih =>
      rw [dropLineEnds] at h
      split at h
      · next space =>
          obtain ⟨before, behind, rfl, hback, sub, same⟩ := ih (spaces.concat space) h
          refine ⟨c :: before, behind, rfl, hback, by simpa using sub, ?_⟩
          rw [same, ink_cons_of_blank (isBlank_of_isSpaceOrTab space)]
      · split at h
        · next newline =>
            cases front with
            | nil => exact ⟨[], rest, by rw [newline]; rfl, (List.cons.inj h).2.symm, by simp, rfl⟩
            | cons d more =>
                obtain ⟨rfl, tail⟩ := List.cons.inj h
                obtain ⟨before, behind, rfl, hback, sub, same⟩ := ih .nil tail
                refine ⟨c :: before, behind, rfl, hback, ?_, ink_cons_congr c same⟩
                exact (sub.cons_cons c).trans (List.sublist_append_right ..)
        · next inLine =>
            rcases cut_cases h.symm with ⟨more, rfl, -⟩ | ⟨more, rfl, later⟩
            · exact absurd (List.mem_append_right _ List.mem_cons_self) spaces.newline_not_mem
            · cases more with
              | nil => exact absurd (List.cons.inj later).1 inLine
              | cons d more =>
                  obtain ⟨rfl, tail⟩ := List.cons.inj later
                  obtain ⟨before, behind, rfl, hback, sub, same⟩ := ih .nil tail
                  refine ⟨c :: before, behind, rfl, hback, (sub.cons_cons c).append_left held, ?_⟩
                  rw [spaces.allBlank.ink_append]
                  exact ink_cons_congr c same

theorem CleanStart.dropLineEnds (h : CleanStart cs) : CleanStart (dropLineEnds [] cs) := by
  intro front back split blank
  obtain ⟨before, behind, whole, -, sub, same⟩ := exists_of_dropLineEnds .nil split
  have blankBefore : AllBlank before := ink_eq_nil_iff.mp (same ▸ ink_eq_nil_iff.mpr blank)
  rw [h before behind whole blankBefore] at sub
  exact List.sublist_nil.mp sub

theorem CleanEnd.dropLineEnds (h : CleanEnd cs) : CleanEnd (dropLineEnds [] cs) := by
  intro front back split blank
  obtain ⟨before, behind, whole, rfl, -, -⟩ := exists_of_dropLineEnds .nil split
  have blankBehind : AllBlank behind := by
    rw [← ink_eq_nil_iff, ← ink_dropLineEnds AllSpaces.nil.allBlank, ink_eq_nil_iff]
    exact blank
  rw [h before behind whole blankBehind]
  rfl

end BlockScript.Layout
