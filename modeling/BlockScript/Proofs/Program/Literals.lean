import BlockScript.Proofs.Program.Layout
import BlockScript.Proofs.Template.Bodies
import BlockScript.Proofs.Text.Literal

/-! # Literals in the source

Tidying takes out newlines behind newlines, blanks in front of newlines, and blanks at both ends of
a text. A literal opens and closes with a quote, and a newline in it stands behind a backslash, so
none of this reaches into it. -/

namespace BlockScript

namespace Text

theorem head?_escape_ne (cs : List Char) : (escape cs).head? ≠ some '\n' := by
  cases cs with
  | nil => simp
  | cons c rest =>
      rw [escape_cons, escapeChar]
      split
      · simp
      · next plain =>
          intro newline
          rw [Option.some.inj newline] at plain
          exact absurd (by decide) plain

/-- A newline in a literal stands behind a backslash. -/
theorem isChain_escape (cs : List Char) :
    (escape cs).IsChain fun c d => d = '\n' → c = '\\' := by
  induction cs with
  | nil => exact .nil
  | cons c rest ih =>
      rw [escape_cons]
      refine List.IsChain.append ?_ ih fun _ _ d hd newline => ?_
      · rw [escapeChar]
        split
        · exact List.isChain_pair.mpr fun _ => rfl
        · exact .singleton _
      · exact absurd (newline ▸ hd) (head?_escape_ne rest)

end Text

namespace Layout

open Text

variable {c : Char} {cs front back blanks : List Char}

/-! Rewrites that do not look back over ink. -/

/-- A rewrite goes on afresh behind a character that is not white space. -/
def Restarts (pass fresh : List Char → List Char) : Prop :=
  ∀ front c back, isBlank c = false → pass (front ++ c :: back) = pass front ++ c :: fresh back

theorem ne_newline_of_inked (inked : isBlank c = false) : c ≠ '\n' := by
  rintro rfl
  exact absurd inked (by decide)

theorem restarts_limitNewlines (seen : Nat) : Restarts (limitNewlines seen) (limitNewlines 0) := by
  intro front c back inked
  induction front generalizing seen with
  | nil => simp [limitNewlines, ne_newline_of_inked inked]
  | cons d rest ih =>
      simp only [List.cons_append, limitNewlines, ih]
      split
      · split <;> rfl
      · rfl

theorem restarts_dropLineEnds (held : List Char) :
    Restarts (dropLineEnds held) (dropLineEnds []) := by
  intro front c back inked
  induction front generalizing held with
  | nil =>
      have inLine : isSpaceOrTab c = false := by
        refine eq_false_of_ne_true fun space => ?_
        exact absurd (isBlank_of_isSpaceOrTab space) (by simp [inked])
      simp [dropLineEnds, inLine, ne_newline_of_inked inked]
  | cons d rest ih =>
      simp only [List.cons_append, dropLineEnds, ih]
      split
      · rfl
      · split
        · rfl
        · rw [List.append_assoc, List.cons_append]

/-- Newlines that are apart are not too many. -/
theorem limitNewlines_of_isChain (h : cs.IsChain fun c d => d = '\n' → c ≠ '\n') {seen : Nat}
    (before : seen = 0 ∨ cs.head? ≠ some '\n') : limitNewlines seen cs = cs := by
  induction cs generalizing seen with
  | nil => rfl
  | cons c rest ih =>
      rw [limitNewlines]
      split
      · next newline =>
          have few : seen < 2 := by
            rcases before with rfl | other
            · decide
            · exact absurd (congrArg some newline) other
          have later : rest.head? ≠ some '\n' := fun more =>
            (List.isChain_cons.mp h).1 '\n' more rfl newline
          rw [if_pos few, ih h.tail (.inr later)]
      · rw [ih h.tail (.inl rfl)]

theorem limitNewlines_escape (text : List Char) : limitNewlines 0 (escape text) = escape text := by
  have apart : (escape text).IsChain fun c d => d = '\n' → c ≠ '\n' := by
    refine (isChain_escape text).imp fun c d behind newline => ?_
    rw [behind newline]
    decide
  exact limitNewlines_of_isChain apart (.inl rfl)

theorem dropLineEnds_escape (text : List Char) : dropLineEnds [] (escape text) = escape text := by
  refine dropLineEnds_of_cleanLines .nil ((isChain_escape text).imp fun c d behind newline => ?_)
  rw [behind newline]
  decide

/-- A rewrite that goes on afresh behind ink, and then leaves the inside of a literal as it is,
leaves the whole literal as it is. -/
theorem Restarts.keeps_quote {pass fresh : List Char → List Char} (restarts : Restarts pass fresh)
    (again : Restarts fresh fresh) {s : String}
    (inside : fresh (escape s.toList) = escape s.toList) (h : (quote s).toList <:+: cs) :
    (quote s).toList <:+: pass cs := by
  obtain ⟨front, back, rfl⟩ := h
  refine ⟨pass front, fresh back, ?_⟩
  have quoteInked : isBlank '\'' = false := by decide
  calc pass front ++ (quote s).toList ++ fresh back
      = pass front ++ '\'' :: (fresh (escape s.toList) ++ '\'' :: fresh back) := by
        rw [inside]
        simp
    _ = pass front ++ '\'' :: fresh (escape s.toList ++ '\'' :: back) := by
        rw [again _ _ _ quoteInked]
    _ = pass (front ++ '\'' :: (escape s.toList ++ '\'' :: back)) := by
        rw [restarts _ _ _ quoteInked]
    _ = pass (front ++ (quote s).toList ++ back) := by simp

/-! Rewrites that shorten a text at its ends. -/

theorem AllBlank.not_mem (blank : AllBlank blanks) (inked : isBlank c = false) : c ∉ blanks :=
  fun member => absurd (blank c member) (by simp [inked])

/-- Ink stays when blanks at the end are taken out, with all that precedes it. -/
theorem AllBlank.exists_of_append_right (blank : AllBlank blanks) (inked : isBlank c = false)
    (h : front ++ c :: back = cs ++ blanks) : ∃ kept, cs = front ++ c :: kept := by
  rcases cut_cases h with ⟨kept, whole, -⟩ | ⟨more, -, rfl⟩
  · exact ⟨kept, whole⟩
  · exact absurd (List.mem_append_right _ List.mem_cons_self) (blank.not_mem inked)

/-- Ink stays when blanks at the start are taken out, with all that follows it. -/
theorem AllBlank.exists_of_append_left (blank : AllBlank blanks) (inked : isBlank c = false)
    (h : front ++ c :: back = blanks ++ cs) : ∃ kept, cs = kept ++ c :: back := by
  rcases cut_cases h with ⟨more, rfl, -⟩ | ⟨kept, -, whole⟩
  · exact absurd (List.mem_append_right _ List.mem_cons_self) (blank.not_mem inked)
  · exact ⟨kept, whole⟩

variable {s : String}

theorem AllBlank.keeps_quote_right (blank : AllBlank blanks)
    (h : (quote s).toList <:+: cs ++ blanks) : (quote s).toList <:+: cs := by
  obtain ⟨front, back, split⟩ := h
  have split : (front ++ '\'' :: escape s.toList) ++ '\'' :: back = cs ++ blanks := by
    rw [← split]
    simp
  obtain ⟨kept, rfl⟩ := blank.exists_of_append_right (by decide) split
  exact ⟨front, kept, by simp⟩

theorem AllBlank.keeps_quote_left (blank : AllBlank blanks)
    (h : (quote s).toList <:+: blanks ++ cs) : (quote s).toList <:+: cs := by
  obtain ⟨front, back, split⟩ := h
  have split : front ++ '\'' :: (escape s.toList ++ '\'' :: back) = blanks ++ cs := by
    rw [← split]
    simp
  obtain ⟨kept, rfl⟩ := blank.exists_of_append_left (by decide) split
  exact ⟨kept, back, by simp⟩

theorem quote_infix_preamble {imports definitions : List String}
    (h : ∃ code ∈ definitions, (quote s).toList <:+: code.toList) :
    (quote s).toList <:+: preamble imports definitions := by
  obtain ⟨code, member, h⟩ := h
  obtain ⟨before, after, whole⟩ := exists_intercalate_eq "\n\n" member
  have joined : (quote s).toList <:+:
      ("\n".intercalate imports ++ "\n\n" ++ "\n\n".intercalate definitions).toList := by
    rw [whole]
    simp only [String.toList_append]
    exact (h.trans (List.infix_append ..)).trans (List.suffix_append ..).isInfix
  obtain ⟨newlines, cut, all⟩ := exists_dropLastNewlines (limitNewlines 0
    ("\n".intercalate imports ++ "\n\n" ++ "\n\n".intercalate definitions).toList)
  refine (AllBlank.of_newlines all).keeps_quote_right ?_
  rw [preamble, ← cut]
  exact (restarts_limitNewlines 0).keeps_quote (restarts_limitNewlines 0)
    (limitNewlines_escape s.toList) joined

/-- Tidying keeps literals. -/
theorem quote_infix_tidied (h : (quote s).toList <:+: cs) :
    (quote s).toList <:+: dropLineEnds [] (dropTrailingBlanks (dropLeadingBlanks cs)) := by
  obtain ⟨before, leading, blankBefore⟩ := exists_dropLeadingBlanks cs
  obtain ⟨behind, trailing, blankBehind⟩ := exists_dropTrailingBlanks (dropLeadingBlanks cs)
  have led : (quote s).toList <:+: dropLeadingBlanks cs :=
    blankBefore.keeps_quote_left (leading ▸ h)
  have trimmed : (quote s).toList <:+: dropTrailingBlanks (dropLeadingBlanks cs) :=
    blankBehind.keeps_quote_right (trailing ▸ led)
  exact (restarts_dropLineEnds []).keeps_quote (restarts_dropLineEnds [])
    (dropLineEnds_escape s.toList) trimmed

end Layout

/-- A literal in the body or in a definition stands in the source, where it denotes what it did. -/
theorem source_keeps_literals (p : Program) (s before after : String)
    (h : p.body = before ++ Text.quote s ++ after ∨
      ∃ code ∈ p.definitions.values, code = before ++ Text.quote s ++ after) :
    ∃ front rest, p.source = front ++ Text.quote s ++ rest ∧
      Text.readLiteral (Text.quote s ++ rest).toList = some (s.toList, rest.toList) := by
  have within : (Text.quote s).toList <:+:
      Layout.preamble p.imports.values p.definitions.values ++ "\n\n\n".toList ++
        p.body.toList := by
    rcases h with body | ⟨code, member, rfl⟩
    · refine List.IsInfix.trans ?_ (List.suffix_append ..).isInfix
      rw [body]
      exact ⟨before.toList, after.toList, by simp⟩
    · refine List.IsInfix.trans ?_ (List.prefix_append ..).isInfix
      refine List.IsInfix.trans ?_ (List.prefix_append ..).isInfix
      exact Layout.quote_infix_preamble ⟨_, member, before.toList, after.toList, by simp⟩
  obtain ⟨front, rest, whole⟩ := Layout.quote_infix_tidied within
  refine ⟨String.ofList front, String.ofList rest, ?_, ?_⟩
  · rw [Program.source, ← whole]
    simp only [String.ofList_append, String.ofList_toList]
  · rw [String.toList_append, Text.readLiteral_quote]

theorem source_keeps_literals_newlines :
    let s := "two  \n\n\n lines' $"
    let p : Program := { body := "\n \nprint(" ++ Text.quote s ++ ");  \n\n" }
    ∃ front rest, p.source = front ++ Text.quote s ++ rest ∧
      Text.readLiteral (Text.quote s ++ rest).toList = some (s.toList, rest.toList) := by
  intro s p
  exact source_keeps_literals p s "\n \nprint(" ");  \n\n" (.inl rfl)

end BlockScript
