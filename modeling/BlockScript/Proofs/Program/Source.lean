import BlockScript.Proofs.Generator.Imports
import BlockScript.Proofs.Generator.Literals
import BlockScript.Proofs.Program.Layout

/-! # The source of a program

Apart from white space, the source of a program is its parts, one after another. A text starts with
a newline after tidying only if it started with one, and with nothing but blanks up to the next
newline, before. Imports do not start with newlines, and without imports two newlines come first. -/

namespace BlockScript

namespace Layout

open Text

variable {cs front back : List Char}

/-! White space between parts. -/

theorem ink_intercalate {separator : String} (blank : AllBlank separator.toList)
    (texts : List String) :
    ink (separator.intercalate texts).toList = ink (String.join texts).toList := by
  induction texts with
  | nil => rfl
  | cons first rest ih =>
      rw [String.join_cons]
      cases rest with
      | nil => simp
      | cons second more =>
          rw [String.intercalate_cons_cons]
          simp only [String.toList_append, ink_append, ink_eq_nil_iff.mpr blank, List.append_nil,
            ih]

theorem ink_dropLastNewlines (cs : List Char) : ink (dropLastNewlines cs) = ink cs := by
  obtain ⟨newlines, whole, all⟩ := exists_dropLastNewlines cs
  conv_rhs => rw [whole]
  exact (ink_append_of_allBlank (AllBlank.of_newlines all)).symm

theorem ink_dropLeadingBlanks (cs : List Char) : ink (dropLeadingBlanks cs) = ink cs := by
  obtain ⟨blanks, whole, blank⟩ := exists_dropLeadingBlanks cs
  conv_rhs => rw [whole]
  exact blank.ink_append.symm

theorem ink_dropTrailingBlanks (cs : List Char) : ink (dropTrailingBlanks cs) = ink cs := by
  obtain ⟨blanks, whole, blank⟩ := exists_dropTrailingBlanks cs
  conv_rhs => rw [whole]
  exact (ink_append_of_allBlank blank).symm

theorem ink_preamble (imports definitions : List String) :
    ink (preamble imports definitions) =
      ink (String.join imports).toList ++ ink (String.join definitions).toList := by
  rw [preamble, ink_dropLastNewlines, ink_limitNewlines, String.toList_append, String.toList_append,
    ink_append, ink_append_of_allBlank (by decide), ink_intercalate (by decide),
    ink_intercalate (by decide)]

/-! Newlines at the start. -/

theorem CleanStart.of_append (h : CleanStart (front ++ back)) : CleanStart front := by
  rintro before behind rfl
  exact h before (behind ++ back) (by simp)

/-- A newline that starts a text without blank lines at the start was there before. -/
theorem head?_of_dropLeadingBlanks (h : (dropLeadingBlanks cs).head? = some '\n') :
    cs.head? = some '\n' ∧ CleanStart cs := by
  rcases dropLeadingBlanks_cases cs with ⟨same, clean⟩ | ⟨-, back, -, -, -, left, last⟩
  · exact ⟨same ▸ h, clean⟩
  · rw [left] at h
    cases back with
    | nil => exact absurd (List.head?_dropWhile_not isBlank cs) (by simp_all)
    | cons c rest =>
        obtain rfl := Option.some.inj h
        exact absurd List.mem_cons_self last

theorem CleanStart.head?_of_dropLineEnds (clean : CleanStart cs)
    (h : (Layout.dropLineEnds [] cs).head? = some '\n') : cs.head? = some '\n' := by
  obtain ⟨back, cut⟩ := List.head?_eq_some_iff.mp h
  have cut : Layout.dropLineEnds [] cs = [] ++ '\n' :: back := cut
  obtain ⟨before, behind, rfl, -, -, same⟩ := exists_of_dropLineEnds .nil cut
  rw [clean before behind rfl (ink_eq_nil_iff.mp same.symm)]
  rfl

/-- What comes first in a text is not a newline, or another newline comes next. -/
def StartsApart (cs : List Char) : Prop := cs.head? = some '\n' → ['\n', '\n'] <+: cs

theorem CleanStart.head?_ne (clean : CleanStart cs) (apart : StartsApart cs) :
    cs.head? ≠ some '\n' := by
  intro newline
  obtain ⟨back, rfl⟩ := apart newline
  exact absurd (clean ['\n'] back rfl (by decide)) (List.cons_ne_nil _ _)

/-- Newlines at the end matter to the start only where there is nothing else. -/
theorem StartsApart.dropLastNewlines (h : StartsApart cs) (back : List Char) :
    StartsApart (dropLastNewlines cs ++ '\n' :: '\n' :: back) := by
  obtain ⟨newlines, whole, all⟩ := exists_dropLastNewlines cs
  rw [whole] at h
  intro newline
  rcases cut : Layout.dropLastNewlines cs with _ | ⟨c, _ | ⟨d, rest⟩⟩ <;> rw [cut] at h newline
  · exact ⟨back, rfl⟩
  · obtain rfl := Option.some.inj newline
    exact ⟨'\n' :: back, rfl⟩
  · obtain ⟨behind, both⟩ := h newline
    obtain ⟨first, both⟩ := List.cons.inj both
    rw [← first, ← (List.cons.inj both).1]
    exact ⟨_, rfl⟩

/-- A preamble starts with its first import, or with a blank line where nothing is imported. -/
theorem startsApart_preamble {imports : List String} (definitions : List String)
    (inked : ∀ code ∈ imports, ∃ c rest, code.toList = c :: rest ∧ c ≠ '\n') (back : List Char) :
    StartsApart (preamble imports definitions ++ '\n' :: '\n' :: back) := by
  refine StartsApart.dropLastNewlines ?_ back
  cases imports with
  | nil => exact fun _ => ⟨_, by simp [limitNewlines]; rfl⟩
  | cons first rest =>
      obtain ⟨c, chars, starts, inLine⟩ := inked first List.mem_cons_self
      intro newline
      refine absurd (Option.some.inj (Eq.trans ?_ newline)) inLine
      cases rest <;> simp [starts, limitNewlines, inLine]

/-- A text as tidying leaves it: no line ends with a space or a tab, it has no blank line at its
start and none at its end, and tidying it again changes nothing. -/
structure IsLaidOut (text : List Char) : Prop where
  lines : ∀ front c back, text = front ++ c :: '\n' :: back → isSpaceOrTab c = false
  start : text.head? ≠ some '\n'
  finish : ¬ ['\n', '\n'] <:+ text
  leading : dropLeadingBlanks text = text
  trailing : dropTrailingBlanks text = text
  lineEnds : dropLineEnds [] text = text

/-- Tidying lays out a text that does not start with a lone newline. -/
theorem StartsApart.isLaidOut (h : StartsApart cs) :
    IsLaidOut (dropLineEnds [] (dropTrailingBlanks (dropLeadingBlanks cs))) := by
  obtain ⟨blanks, whole, -⟩ := exists_dropTrailingBlanks (dropLeadingBlanks cs)
  have start : CleanStart (dropTrailingBlanks (dropLeadingBlanks cs)) :=
    .of_append (whole ▸ cleanStart_dropLeadingBlanks cs)
  have finish := (cleanEnd_dropTrailingBlanks (dropLeadingBlanks cs)).dropLineEnds
  have lines := cleanLines_dropLineEnds .nil (dropTrailingBlanks (dropLeadingBlanks cs))
  constructor
  · intro front c back split
    exact List.isChain_iff_forall_rel_of_append_cons_cons.mp lines split rfl
  · intro newline
    have trimmed := start.head?_of_dropLineEnds newline
    have led : (dropLeadingBlanks cs).head? = some '\n' := by
      rw [whole, List.head?_append, trimmed]
      rfl
    obtain ⟨first, clean⟩ := head?_of_dropLeadingBlanks led
    exact clean.head?_ne h first
  · rintro ⟨front, split⟩
    exact absurd (finish front ['\n'] split.symm (by decide)) (List.cons_ne_nil _ _)
  · exact dropLeadingBlanks_of_cleanStart start.dropLineEnds
  · exact dropTrailingBlanks_of_cleanEnd finish
  · exact dropLineEnds_of_cleanLines .nil lines

end Layout

open Layout

theorem Program.ink_source (p : Program) :
    ink p.source.toList =
      ink (String.join (p.imports.values ++ p.definitions.values ++ [p.body])).toList := by
  rw [source, String.toList_ofList, ink_dropLineEnds AllSpaces.nil.allBlank, ink_dropTrailingBlanks,
    ink_dropLeadingBlanks, ink_append, ink_append_of_allBlank (by decide), ink_preamble]
  simp [String.join_append]

theorem Module.exists_toList_code (m : Module) :
    ∃ c rest, m.code.toList = c :: rest ∧ c ≠ '\n' := by
  cases m with
  | math => exact ⟨'i', _, rfl, by decide⟩
  | html => exact ⟨'i', _, rfl, by decide⟩

/-- All that a generated program imports is modules. -/
theorem generate_importsModules {g : Generator} {w : Workspace} {p : Program}
    (success : (g.generate w).1 = .ok p) : ∀ e ∈ p.imports, ∃ m : Module, e = (m.key, m.code) := by
  obtain ⟨harvest, final, run, rfl, -⟩ := g.generate_eq_ok success
  obtain ⟨events, reached⟩ :=
    (Ledger.reachable_declareNames g.options.indent w.walk).of_steps (steps_renderAll run)
  have imports : Ledger.ImportsModules final :=
    reached.keeps (fun step imports => imports.step step) fun e he => absurd he List.not_mem_nil
  exact imports

/-- The source of a program holds what its imports, its definitions and its body hold, in that
order, apart from white space. That of a generated program is laid out. -/
theorem source_layout :
    (∀ p : Program, ink p.source.toList =
      ink (String.join (p.imports.values ++ p.definitions.values ++ [p.body])).toList) ∧
    ∀ (g : Generator) (w : Workspace) (p : Program),
      (g.generate w).1 = .ok p → IsLaidOut p.source.toList := by
  refine ⟨Program.ink_source, fun g w p success => ?_⟩
  have inked : ∀ code ∈ p.imports.values, ∃ c rest, code.toList = c :: rest ∧ c ≠ '\n' := by
    intro code hc
    obtain ⟨e, he, rfl⟩ := List.mem_map.mp hc
    obtain ⟨m, rfl⟩ := generate_importsModules success e he
    exact m.exists_toList_code
  rw [Program.source, String.toList_ofList]
  refine StartsApart.isLaidOut ?_
  simpa using startsApart_preamble p.definitions.values inked ('\n' :: p.body.toList)

theorem source_layout_circle :
    let g : Generator := { options := {} }
    let w : Workspace := { blocks := [circleNumber] }
    ∃ p, (g.generate w).1 = .ok p ∧ p.imports.values = [Module.math.code] ∧
      IsLaidOut p.source.toList := by
  intro g w
  have run : (g.generate w).1.toOption.any
      (fun p => decide (p.imports.values = [Module.math.code])) = true := by
    decide +kernel
  obtain ⟨p, success, imports⟩ := exists_ok_of_any run
  exact ⟨p, success, of_decide_eq_true imports, source_layout.2 g w p success⟩

end BlockScript
