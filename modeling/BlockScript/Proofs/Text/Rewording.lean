import BlockScript.Options
import BlockScript.Proofs.Names.Fresh
import BlockScript.Proofs.Text.Mention

/-! # Texts made from texts

Quoting a text, indenting it, cutting it into lines and making an identifier of it change only
characters that no name of a module has. So the new text mentions no module that the old one does
not. -/

namespace BlockScript

open Text Names

section Reworded
variable {xs ys cs ds : List Char}

/-- Letters of names stay, and every other character gives way to some that are none. -/
theorem Reworded.flatMap {f : Char → List Char}
    (kept : ∀ c ∈ cs, isAliasLetter c = true → f c = [c])
    (inert : ∀ c ∈ cs, isAliasLetter c = false → IsInert (f c) ∧ f c ≠ []) :
    Reworded cs (cs.flatMap f) := by
  induction cs with
  | nil => exact .nil
  | cons c rest ih =>
      have tail := ih (fun d hd => kept d (List.mem_cons_of_mem _ hd)) fun d hd =>
        inert d (List.mem_cons_of_mem _ hd)
      rw [List.flatMap_cons]
      cases hc : isAliasLetter c with
      | true =>
          rw [kept c List.mem_cons_self hc]
          exact .keep c tail
      | false =>
          obtain ⟨hi, hne⟩ := inert c List.mem_cons_self hc
          have hone : IsInert [c] := by
            intro d hd
            rwa [List.mem_singleton.mp hd]
          exact .swap hone hi hne tail

/-- A pattern gives way to a text, neither with letters of names. -/
theorem Reworded.replaceFrom {pattern new : List Char} (hp : IsInert pattern) (hne : pattern ≠ [])
    (hn : IsInert new) (hne' : new ≠ []) (cs : List Char) :
    Reworded cs (Text.replaceFrom pattern new 0 cs) := by
  -- The characters of a pattern are skipped at once, so the induction is on the length.
  induction hl : cs.length using Nat.strongRecOn generalizing cs with
  | ind n ih =>
      cases cs with
      | nil => exact .nil
      | cons c rest =>
          rw [Text.replaceFrom]
          split
          · next hprefix =>
              obtain ⟨tail, htail⟩ := List.isPrefixOf_iff_prefix.mp hprefix
              obtain ⟨p, ps, rfl⟩ := List.exists_cons_of_ne_nil hne
              obtain ⟨rfl, rfl⟩ := List.cons.inj htail
              have hskip : Text.replaceFrom (p :: ps) new ((p :: ps).length - 1) (ps ++ tail) =
                  Text.replaceFrom (p :: ps) new 0 tail := by
                rw [replaceFrom_skip, List.length_cons, Nat.add_one_sub_one, List.drop_left]
              have shorter : tail.length < n := by
                rw [← hl, ← htail, List.length_append, List.length_cons]
                omega
              have swapped := Reworded.swap hp hn hne' (ih tail.length shorter tail rfl)
              rw [← hskip] at swapped
              exact swapped
          · exact .keep c (ih rest.length (by simp at hl; omega) rest rfl)

end Reworded

variable {F : Module → Prop} {v : View} {text : String}

/-- Rewording brings about no mention. -/
theorem MentionsOnly.of_reworded {v' : View} {new : String} (h : MentionsOnly F v text)
    (reworded : Reworded (v.of text) (v'.of new)) : MentionsOnly F v' new :=
  fun m hm => h m (reworded.contains m.isAliasWord hm)

/-! Quoted texts. A quote in the text has a backslash in front of it, which is seen where quotes
are not. -/

theorem reworded_quote (text : String) :
    Reworded (View.undoubled.of text) (View.unquoted.of (quote text)) := by
  have hseen : View.unquoted.of (quote text) =
      (View.undoubled.of text).flatMap fun c => (escapeChar c).filter View.unquoted.shows := by
    rw [View.of, toList_quote, List.filter_cons_of_neg (by decide), List.filter_append,
      List.filter_cons_of_neg (by decide), List.filter_nil, List.append_nil, escape, View.of]
    induction text.toList with
    | nil => rfl
    | cons c rest ih =>
        rw [List.flatMap_cons, List.filter_append, ih]
        by_cases hc : c = '"'
        · subst hc
          rfl
        · rw [List.filter_cons_of_pos (by simp [View.shows, hc]), List.flatMap_cons]
  rw [hseen]
  apply Reworded.flatMap
  · intro c _ hletter
    have hno : needsEscape c = false := by
      rw [Bool.eq_false_iff]
      intro he
      simp only [needsEscape, Bool.or_eq_true, beq_iff_eq] at he
      rcases he with ((rfl | rfl) | rfl) | rfl <;> exact absurd hletter (by decide)
    simp [escapeChar, hno, View.shows_of_isAliasLetter _ hletter]
  · intro c hc hletter
    have hquote : c ≠ '"' := by
      rintro rfl
      exact absurd (List.mem_filter.mp hc).2 (by decide)
    have hback : isAliasLetter '\\' = false := by decide
    unfold escapeChar
    by_cases hs : c = '\''
    · subst hs
      refine ⟨fun d hd => ?_, by decide⟩
      have : d = '\\' := by simpa [needsEscape, View.shows, Template.isQuoteMark] using hd
      exact this ▸ hback
    · have hshown : View.unquoted.shows c = true := by
        simp [View.shows, Template.isQuoteMark, hquote, hs]
      split
      · refine ⟨fun d hd => ?_, List.ne_nil_of_mem (List.mem_filter.mpr ⟨?_, hshown⟩)⟩
        · rcases List.mem_cons.mp (List.mem_filter.mp hd).1 with rfl | hd
          · exact hback
          · exact List.mem_singleton.mp hd ▸ hletter
        · simp
      · refine ⟨fun d hd => ?_, List.ne_nil_of_mem (List.mem_filter.mpr ⟨?_, hshown⟩)⟩
        · exact List.mem_singleton.mp (List.mem_filter.mp hd).1 ▸ hletter
        · simp

theorem MentionsOnly.quote (h : MentionsOnly F .undoubled text) (v : View) :
    MentionsOnly F v (quote text) :=
  (h.of_reworded (reworded_quote text)).view v

/-! Lines, and what is put in front of them. -/

theorem Text.infix_of_mem_splitLines {cs line : List Char} (h : line ∈ splitLines cs) :
    line <:+: cs := by
  rw [← intercalate_splitLines cs]
  generalize splitLines cs = ls at h
  induction ls with
  | nil => exact absurd h List.not_mem_nil
  | cons first rest ih =>
      cases rest with
      | nil =>
          rw [List.mem_singleton.mp h, List.intercalate_singleton]
      | cons second more =>
          rw [List.intercalate_cons_cons]
          rcases List.mem_cons.mp h with rfl | h
          · rw [List.append_assoc]
            exact (List.prefix_append _ _).isInfix
          · exact (ih h).trans (List.suffix_append _ _).isInfix

theorem MentionsOnly.of_mem_lines {line : String} (h : MentionsOnly F v text)
    (member : line ∈ lines text) : MentionsOnly F v line := by
  obtain ⟨cs, hcs, rfl⟩ := List.mem_map.mp member
  apply h.of_infix
  rw [String.toList_ofList]
  exact infix_of_mem_splitLines hcs

theorem MentionsOnly.multilineQuote (h : MentionsOnly F .undoubled text) (v : View) :
    MentionsOnly F v (multilineQuote text) := by
  refine (MentionsOnly.intercalate_iff (List.forall_mem_nil _) (by decide +kernel) _).mpr ?_
  intro literal hm
  obtain ⟨line, hline, rfl⟩ := List.mem_map.mp hm
  exact (h.of_mem_lines hline).quote v

theorem IsInert.startsApart {cs : List Char} (h : IsInert cs) : startsApart cs = true := by
  cases cs with
  | nil => rfl
  | cons c rest => simp [BlockScript.startsApart, h c List.mem_cons_self]

theorem IsInert.endsApart {cs : List Char} (h : IsInert cs) : endsApart cs = true := by
  rcases List.eq_nil_or_concat cs with rfl | ⟨front, c, rfl⟩
  · rfl
  · simp [BlockScript.endsApart, h c (by simp)]

theorem IsInert.filter {cs : List Char} (h : IsInert cs) (p : Char → Bool) :
    IsInert (cs.filter p) :=
  fun c hc => h c (List.mem_filter.mp hc).1

theorem MentionsOnly.of_inert (h : IsInert text.toList) : MentionsOnly F v text := by
  intro m hm
  exact absurd hm (m.isAliasWord.not_in_inert (h.filter v.shows))

/-- Something that may be put in front of lines: it has no letters of names, unless every module may
be mentioned. -/
def IsMargin (F : Module → Prop) (mark : String) : Prop := (∀ m, F m) ∨ IsInert mark.toList

section Margin
variable {mark : String}

theorem IsMargin.mentionsOnly (margin : IsMargin F mark) : MentionsOnly F v mark := by
  rcases margin with all | inert
  · exact .of_all all v mark
  · exact .of_inert inert

theorem IsMargin.append_iff (margin : IsMargin F mark) :
    MentionsOnly F v (mark ++ text) ↔ MentionsOnly F v text := by
  rcases margin with all | inert
  · exact iff_of_true (.of_all all v _) (.of_all all v _)
  · rw [MentionsOnly.append_iff (.inl (inert.filter v.shows).endsApart)]
    exact and_iff_right (.of_inert inert)

theorem IsMargin.append_right_iff (margin : IsMargin F mark) :
    MentionsOnly F v (text ++ mark) ↔ MentionsOnly F v text := by
  rcases margin with all | inert
  · exact iff_of_true (.of_all all v _) (.of_all all v _)
  · rw [MentionsOnly.append_iff (.inr (inert.filter v.shows).startsApart)]
    exact and_iff_left (.of_inert inert)

theorem IsMargin.repeated (margin : IsMargin F mark) (n : Nat) :
    IsMargin F (Text.repeated mark n) :=
  margin.imp id fun inert c mem => inert c (Text.mem_of_mem_repeated mem)

theorem reworded_markTail (inert : IsInert mark.toList) (v : View) (cs : List Char) :
    Reworded (cs.filter v.shows) ((markTail mark.toList cs).filter v.shows) := by
  have hnewline : v.shows '\n' = true := by
    cases v <;> rfl
  induction cs with
  | nil => exact .nil
  | cons c rest ih =>
      rw [markTail]
      split
      · next hc =>
          obtain ⟨rfl, -⟩ := hc
          rw [List.filter_cons_of_pos hnewline, List.filter_cons_of_pos hnewline,
            List.filter_append]
          have hone : IsInert ['\n'] := IsInert.of_all (by decide)
          exact .swap hone (hone.append (inert.filter v.shows)) (List.cons_ne_nil _ _) ih
      · by_cases hc : v.shows c = true
        · rw [List.filter_cons_of_pos hc, List.filter_cons_of_pos hc]
          exact .keep c ih
        · rwa [List.filter_cons_of_neg hc, List.filter_cons_of_neg hc]

theorem MentionsOnly.prefixLines (h : MentionsOnly F v text) (margin : IsMargin F mark) :
    MentionsOnly F v (prefixLines text mark) := by
  rcases id margin with all | inert
  · exact .of_all all v _
  · unfold Text.prefixLines
    split
    · exact .empty
    · rw [String.ofList_append, String.ofList_toList, margin.append_iff]
      apply h.of_reworded
      rw [View.of, View.of, String.toList_ofList]
      exact reworded_markTail inert v _

theorem MentionsOnly.of_mem_indented {line : String} (h : MentionsOnly F v text)
    (margin : IsMargin F mark) (member : line ∈ indented text mark) : MentionsOnly F v line := by
  obtain ⟨own, hown, rfl⟩ := List.mem_map.mp member
  exact margin.append_iff.mpr (h.of_mem_lines hown)

end Margin

/-! Identifiers. -/

/-- The letters of names are letters, and an identifier keeps them. -/
theorem reworded_safeChar (cs : List Char) : Reworded cs (cs.flatMap safeChar) := by
  apply Reworded.flatMap
  · intro c _ hletter
    have hall : "MathHml".toList.all isAsciiAlphanumeric = true := by decide
    have halnum : isAsciiAlphanumeric c = true :=
      List.all_eq_true.mp hall c (by simpa [isAliasLetter] using hletter)
    simp [safeChar, halnum]
  · intro c _ hletter
    refine ⟨?_, safeChar_ne_nil c⟩
    unfold safeChar
    split
    · intro d hd
      exact List.mem_singleton.mp hd ▸ hletter
    · split
      · exact IsInert.of_all (by decide)
      · intro d hd
        obtain ⟨b, -, hb⟩ := List.mem_flatMap.mp hd
        have hdigit : ∀ n < 16, isAliasLetter (hexDigit n) = false := by decide
        have hlt : b.toNat < 256 := b.toNat_lt
        simp only [byteCode, List.mem_cons, List.not_mem_nil, or_false] at hb
        rcases hb with rfl | rfl | rfl
        · decide
        · exact hdigit _ (by omega)
        · exact hdigit _ (by omega)

/-- Nothing in a text is a quote. -/
def IsQuoteless (text : String) : Prop := ∀ c ∈ text.toList, Template.isQuoteMark c = false

theorem IsQuoteless.view_eq (h : IsQuoteless text) (v : View) : v.of text = text.toList := by
  refine List.filter_eq_self.mpr fun c hc => ?_
  have hquote := h c hc
  cases v with
  | whole => rfl
  | undoubled =>
      simp only [Template.isQuoteMark, Bool.or_eq_false_iff] at hquote
      simp [View.shows, bne, hquote.1]
  | unquoted => simp [View.shows, hquote]

/-- Without quotes there is nothing to leave out. -/
theorem MentionsOnly.of_quoteless {v' : View} (h : MentionsOnly F v' text)
    (quoteless : IsQuoteless text) (v : View) : MentionsOnly F v text := by
  intro m hm
  apply h m
  rw [quoteless.view_eq] at hm ⊢
  exact hm

theorem isQuoteless_of_isIdentifier (h : isIdentifier text.toList = true) : IsQuoteless text := by
  intro c hc
  rw [Bool.eq_false_iff]
  intro hq
  simp only [Template.isQuoteMark, Bool.or_eq_true, beq_iff_eq] at hq
  rcases hq with rfl | rfl <;> exact not_mem_of_isIdentifier h (by decide) hc

/-- The identifier made from a name mentions no more than the name. -/
theorem MentionsOnly.safeName (h : MentionsOnly F .whole text) (v : View) :
    MentionsOnly F v (safeName text) := by
  suffices whole : MentionsOnly F .whole (Names.safeName text) from
    whole.of_quoteless (isQuoteless_of_isIdentifier (isIdentifier_safeName text)) v
  have spelled : MentionsOnly F .whole (String.ofList (text.toList.flatMap safeChar)) := by
    apply h.of_reworded
    rw [View.whole_of, View.whole_of, String.toList_ofList]
    exact reworded_safeChar text.toList
  unfold Names.safeName
  split
  · exact .of_isPlain (List.forall_mem_nil _) (by decide +kernel)
  · unfold guardDigit
    split
    · exact .empty
    · split
      · rw [String.ofList_append, String.ofList_toList]
        exact (MentionsOnly.opening_append (List.forall_mem_nil _) (by decide +kernel)).mpr spelled
      · exact spelled

theorem isInert_of_digits {cs : List Char} (h : ∀ c ∈ cs, isAsciiDigit c = true) :
    IsInert cs := by
  intro c hc
  have hdigit := h c hc
  rw [Bool.eq_false_iff]
  intro hletter
  simp only [isAliasLetter, List.contains_cons, Bool.or_eq_true, beq_iff_eq, List.contains_nil,
    Bool.false_eq_true, or_false] at hletter
  rcases hletter with rfl | rfl | rfl | rfl | rfl | rfl | rfl <;> exact absurd hdigit (by decide)

theorem isInert_toString (n : Nat) : IsInert (toString n).toList :=
  isInert_of_digits fun _ => isAsciiDigit_of_mem_toString n

theorem MentionsOnly.candidate (h : MentionsOnly F .whole text) (n : Nat) (v : View) :
    MentionsOnly F v (candidate (Names.safeName text) n) := by
  cases n with
  | zero => exact h.safeName v
  | succ n =>
      have border := ((isInert_toString (n + 2)).filter v.shows).startsApart
      exact (MentionsOnly.append_iff (.inr border)).mpr
        ⟨h.safeName v, .of_inert (isInert_toString (n + 2))⟩

/-- The qualified form of an identifier mentions no more than the identifier. -/
theorem MentionsOnly.qualified (h : MentionsOnly F .whole text)
    (identifier : isIdentifier text.toList = true) (v : View) :
    MentionsOnly F v (Template.qualified text) := by
  have quoteless : IsQuoteless (Template.qualified text) := by
    intro c hc
    rw [Template.qualified, replaceAll, String.toList_ofList] at hc
    rcases mem_replaceFrom hc with hc | hc
    · have hall : "::".toList.all (fun c => !Template.isQuoteMark c) = true := by decide
      simpa using List.all_eq_true.mp hall c hc
    · exact isQuoteless_of_isIdentifier identifier c hc
  suffices whole : MentionsOnly F .whole (Template.qualified text) from
    whole.of_quoteless quoteless v
  apply h.of_reworded
  rw [View.whole_of, View.whole_of, Template.qualified, replaceAll, String.toList_ofList]
  exact .replaceFrom (IsInert.of_all (by decide)) (by decide) (IsInert.of_all (by decide))
    (by decide) text.toList

end BlockScript
