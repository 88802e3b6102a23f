import BlockScript.Definitions
import BlockScript.Proofs.Names.Fresh
import BlockScript.Proofs.Text.Replacement
import BlockScript.Proofs.Text.WholeLines

/-! # Lines of helpers

The code of a helper is its template, line by line: the name is filled in wherever the template has
a place for it, and the two spaces that templates are indented by give way to the indentation of the
script. A space that is left over stays, and so does the rest of the line. -/

namespace BlockScript

namespace Definitions

open Text

/-! ### Spaces in front of a line -/

/-- A run of spaces. -/
def spaces (n : Nat) : String := repeated " " n

theorem toList_spaces (n : Nat) : (spaces n).toList = List.replicate n ' ' := by
  induction n with
  | zero => rfl
  | succ n ih =>
      rw [spaces, repeated, String.toList_append, ← spaces, ih]
      rfl

/-- A space is a byte. -/
theorem utf8ByteSize_spaces (n : Nat) : (spaces n).utf8ByteSize = n := by
  induction n with
  | zero => rfl
  | succ n ih =>
      rw [spaces, repeated, String.utf8ByteSize_append, ← spaces, ih]
      exact Nat.add_comm 1 n

/-- A text has no space in front. -/
def IsFlush (text : String) : Prop := text.toList.head? ≠ some ' '

theorem leadingSpaces_spaces_append (k : Nat) {back : String} (flush : IsFlush back) :
    leadingSpaces (spaces k ++ back).toList = k := by
  rw [String.toList_append, toList_spaces]
  induction k with
  | zero =>
      unfold IsFlush at flush
      cases h : back.toList with
      | nil => rfl
      | cons c rest =>
          have other : c ≠ ' ' := by simpa [h] using flush
          simp [leadingSpaces, other]
  | succ k ih => simpa [leadingSpaces, List.replicate_succ] using ih

/-- The line behind the spaces in front of it. -/
def behindSpaces (line : String) : String := String.ofList (line.toList.dropWhile (· = ' '))

theorem isFlush_behindSpaces (line : String) : IsFlush (behindSpaces line) := by
  rw [IsFlush, behindSpaces, String.toList_ofList]
  intro starts
  have stopped := List.head?_dropWhile_not (· = ' ') line.toList
  rw [starts] at stopped
  simp at stopped

/-- A line is the spaces in front of it and what is behind them. -/
theorem spaces_append_behindSpaces (line : String) :
    spaces (leadingSpaces line.toList) ++ behindSpaces line = line := by
  have front :
      List.replicate (leadingSpaces line.toList) ' ' = line.toList.takeWhile (· = ' ') := by
    refine (List.eq_replicate_of_mem fun c mem => ?_).symm
    simpa using List.all_eq_true.mp List.all_takeWhile c mem
  apply String.toList_injective
  rw [String.toList_append, toList_spaces, behindSpaces, String.toList_ofList, front,
    List.takeWhile_append_dropWhile]

/-! ### Other units -/

/-- A line whose spaces in front are put in other units. An odd space stays behind them. -/
def IsReindented (indent line result : String) : Prop :=
  ∃ k back, line = spaces k ++ back ∧ IsFlush back ∧
    result = repeated indent (k / 2) ++ spaces (k % 2) ++ back

/-- Put the spaces in front of a line in other units, whatever these are. -/
def exchangeUnits (indent line : String) : String :=
  let units := leadingSpaces line.toList / 2
  repeated indent units ++ String.ofList (line.toList.drop (units * 2))

theorem spaces_units_append (k : Nat) : spaces (k / 2 * 2) ++ spaces (k % 2) = spaces k := by
  rw [spaces, spaces, ← repeated_add, Nat.div_add_mod', ← spaces]

/-- What is kept of a line starts behind the last whole unit. -/
theorem drop_units (line : String) :
    String.ofList (line.toList.drop (leadingSpaces line.toList / 2 * 2)) =
      spaces (leadingSpaces line.toList % 2) ++ behindSpaces line := by
  have whole := spaces_append_behindSpaces line
  generalize leadingSpaces line.toList = k at whole ⊢
  have length : (spaces (k / 2 * 2)).toList.length = k / 2 * 2 := by
    rw [toList_spaces, List.length_replicate]
  have cut : line.toList =
      (spaces (k / 2 * 2)).toList ++ (spaces (k % 2) ++ behindSpaces line).toList := by
    rw [← String.toList_append, ← String.append_assoc, spaces_units_append, whole]
  have kept := congrArg (List.drop (k / 2 * 2)) cut
  rw [List.drop_left' length] at kept
  rw [kept, String.ofList_toList]

theorem isReindented_exchangeUnits (indent line : String) :
    IsReindented indent line (exchangeUnits indent line) := by
  refine ⟨leadingSpaces line.toList, behindSpaces line, (spaces_append_behindSpaces line).symm,
    isFlush_behindSpaces line, ?_⟩
  rw [exchangeUnits, drop_units, String.append_assoc]

theorem repeated_templateIndent (n : Nat) : repeated templateIndent n = spaces (n * 2) := by
  induction n with
  | zero => rfl
  | succ n ih =>
      rw [repeated, ih, Nat.succ_mul, Nat.add_comm, spaces, spaces, repeated_add]
      rfl

/-- The units of templates may be exchanged for themselves. -/
theorem exchangeUnits_templateIndent (line : String) :
    exchangeUnits templateIndent line = line := by
  rw [exchangeUnits, drop_units, repeated_templateIndent, ← String.append_assoc,
    spaces_units_append, spaces_append_behindSpaces]

/-- So a line that keeps its indentation need not be looked at. -/
theorem reindent_eq_exchangeUnits (indent line : String) :
    reindent indent line = exchangeUnits indent line := by
  unfold reindent
  split
  · next same => rw [same, exchangeUnits_templateIndent]
  · rfl

/-- A line is cut behind its whole units, within its bytes and between two characters. -/
theorem exists_cut (line : String) :
    ∃ front back, line = front ++ back ∧ front.utf8ByteSize = leadingSpaces line.toList / 2 * 2 ∧
      ∀ indent, exchangeUnits indent line =
        repeated indent (leadingSpaces line.toList / 2) ++ back := by
  refine ⟨spaces (leadingSpaces line.toList / 2 * 2),
    spaces (leadingSpaces line.toList % 2) ++ behindSpaces line, ?_, utf8ByteSize_spaces _, ?_⟩
  · rw [← String.append_assoc, spaces_units_append, spaces_append_behindSpaces]
  · intro indent
    rw [exchangeUnits, drop_units]

/-- The spaces in front of a line are as many as the bytes by which it is longer than what is behind
them. -/
theorem leadingSpaces_eq_sub (line : String) :
    leadingSpaces line.toList = line.utf8ByteSize - (behindSpaces line).utf8ByteSize := by
  have bytes := congrArg String.utf8ByteSize (spaces_append_behindSpaces line)
  rw [String.utf8ByteSize_append, utf8ByteSize_spaces] at bytes
  omega

/-- No newline comes in by other units. -/
theorem IsReindented.newline_not_mem {indent line result : String}
    (h : IsReindented indent line result) (flat : '\n' ∉ indent.toList)
    (single : '\n' ∉ line.toList) : '\n' ∉ result.toList := by
  obtain ⟨k, back, rfl, -, rfl⟩ := h
  simp only [String.toList_append, List.mem_append, not_or] at single ⊢
  have blank : '\n' ∉ (spaces (k % 2)).toList :=
    fun mem => absurd (mem_of_mem_repeated mem) (by decide)
  exact ⟨⟨fun mem => flat (mem_of_mem_repeated mem), blank⟩, single.2⟩

/-! ### The name in its places -/

/-- A name that does not start with a space leaves a text as it is that does not start with one. -/
theorem isFlush_replaceAll {text name : String} (h : IsFlush text) (filled : name ≠ "")
    (flush : IsFlush name) : IsFlush (replaceAll text namePlaceholder name) := by
  unfold IsFlush at h ⊢
  rw [replaceAll, String.toList_ofList]
  cases back : text.toList with
  | nil =>
      rw [replaceFrom_nil]
      exact (Option.some_ne_none ' ').symm
  | cons c rest =>
      rw [replaceFrom]
      split
      · have named : name.toList ≠ [] := fun none => filled (String.toList_eq_nil_iff.mp none)
        rwa [List.head?_append_of_ne_nil _ named]
      · rwa [back] at h

/-- The indentation of a line does not depend on the name. -/
theorem leadingSpaces_replaceAll (line : String) {name : String} (filled : name ≠ "")
    (flush : IsFlush name) :
    leadingSpaces (replaceAll line namePlaceholder name).toList = leadingSpaces line.toList := by
  have brace : namePlaceholder.toList.head? = some '\x7b' := rfl
  have apart : ∀ d ∈ (spaces (leadingSpaces line.toList)).toList, d ≠ '\x7b' := by
    intro d mem
    obtain rfl := List.mem_singleton.mp (mem_of_mem_repeated mem)
    decide
  have split : replaceAll line namePlaceholder name = spaces (leadingSpaces line.toList) ++
      replaceAll (behindSpaces line) namePlaceholder name := by
    apply String.toList_injective
    rw [String.toList_append, replaceAll, replaceAll, String.toList_ofList, String.toList_ofList,
      ← replaceFrom_append brace apart, ← String.toList_append, spaces_append_behindSpaces]
  rw [split, leadingSpaces_spaces_append _
    (isFlush_replaceAll (isFlush_behindSpaces line) filled flush)]

theorem fresh_ne_empty (names : Names) (key : String) : names.fresh key ≠ "" := by
  intro empty
  have identifier := names.isIdentifier_fresh key
  rw [empty] at identifier
  contradiction

theorem isFlush_fresh (names : Names) (key : String) : IsFlush (names.fresh key) := fun starts =>
  Names.not_mem_of_isIdentifier (names.isIdentifier_fresh key) (by decide) (List.mem_of_head? starts)

/-! ### The code -/

/-- The lines of the code are those of the template, each with the name and the new indentation. -/
theorem lines_helperCode {template : List String} {indent name : String} (hne : template ≠ [])
    (single : ∀ line ∈ template, '\n' ∉ line.toList) (flat : '\n' ∉ indent.toList)
    (named : '\n' ∉ name.toList) :
    lines (helperCode template indent name) = template.map fun line =>
      exchangeUnits indent (replaceAll line namePlaceholder name) := by
  simp only [helperCode, reindent_eq_exchangeUnits]
  refine lines_joinLines (List.map_eq_nil_iff.not.mpr hne) fun result mem => ?_
  obtain ⟨line, own, rfl⟩ := List.mem_map.mp mem
  refine (isReindented_exchangeUnits indent _).newline_not_mem flat fun newline => ?_
  rw [replaceAll, String.toList_ofList] at newline
  exact (mem_replaceFrom newline).elim named (single line own)

/-- A code that follows a template line by line: the name stands in every place for it, and the
spaces in front are put in the units of the script. -/
def IsWritten (template : List String) (indent name code : String) : Prop :=
  ∃ results : List String, code = "\n".intercalate results ∧
    template.Forall₂ (fun line result => ∃ named : String,
      IsReplacement "\x7bfn\x7d" name line named ∧ IsReindented indent named result) results

theorem isWritten_helperCode (template : List String) (indent name : String) :
    IsWritten template indent name (helperCode template indent name) := by
  refine ⟨_, rfl, List.forall₂_map_right_iff.mpr (List.forall₂_same.mpr fun line _ => ?_)⟩
  refine ⟨_, isReplacement_replaceAll (by decide) line name, ?_⟩
  rw [reindent_eq_exchangeUnits]
  exact isReindented_exchangeUnits indent _

section Provide
variable (definitions : Definitions) (names : Names) (key indent : String) (template : List String)

/-- A helper that has no name gets a fresh one, and its code is put under its key. -/
theorem provide_of_new (new : definitions.helperNames.get? key = none) :
    (definitions.provide names key template indent).1 = names.fresh key ∧
    (definitions.provide names key template indent).2.2.definitions.get? key =
      some (helperCode template indent (names.fresh key)) := by
  rw [provide, new]
  exact ⟨rfl, Table.get?_put_self ..⟩

/-- The code of a helper has a line for each line of its template: the name stands in every place
for it, each two of the spaces in front have given way to the indentation, an odd one is left behind
it, and the rest is as it was. The units of templates, which are left alone, are no exception, and a
line is always cut within its bytes and between two characters. -/
theorem provide_reindents :
    (definitions.helperNames.get? key = none → (∀ line ∈ template, '\n' ∉ line.toList) →
      '\n' ∉ indent.toList →
      let provided := definitions.provide names key template indent
      ∃ code : String, provided.2.2.definitions.get? key = some code ∧
        (lines code).length = max template.length 1 ∧
        ∀ (i : Nat) (line : String), template[i]? = some line → ∃ named result,
          IsReplacement namePlaceholder provided.1 line named ∧
          leadingSpaces named.toList = leadingSpaces line.toList ∧
          IsReindented indent named result ∧ (lines code)[i]? = some result) ∧
    (∀ line, reindent templateIndent line = line) ∧
    (∀ other line, reindent other line = exchangeUnits other line) ∧
    ∀ line, leadingSpaces line.toList = line.utf8ByteSize - (behindSpaces line).utf8ByteSize ∧
      ∃ front back, line = front ++ back ∧
        front.utf8ByteSize = leadingSpaces line.toList / 2 * 2 ∧
        ∀ other, exchangeUnits other line =
          repeated other (leadingSpaces line.toList / 2) ++ back := by
  refine ⟨?_, fun line => if_pos rfl, reindent_eq_exchangeUnits,
    fun line => ⟨leadingSpaces_eq_sub line, exists_cut line⟩⟩
  intro new single flat provided
  obtain ⟨name, stored⟩ : provided.1 = names.fresh key ∧ provided.2.2.definitions.get? key =
      some (helperCode template indent (names.fresh key)) :=
    provide_of_new definitions names key indent template new
  have named : '\n' ∉ (names.fresh key).toList :=
    Names.not_mem_of_isIdentifier (names.isIdentifier_fresh key) (by decide)
  refine ⟨_, stored, ?_, fun i line found => ?_⟩
  · by_cases empty : template = []
    · subst empty
      rfl
    · have filled := List.length_pos_iff.mpr empty
      rw [lines_helperCode empty single flat named, List.length_map]
      omega
  · have hne : template ≠ [] := List.ne_nil_of_mem (List.mem_of_getElem? found)
    have replaced : IsReplacement namePlaceholder provided.1 line
        (replaceAll line namePlaceholder (names.fresh key)) := by
      rw [name]
      exact isReplacement_replaceAll (by decide) line (names.fresh key)
    have indented := leadingSpaces_replaceAll line (fresh_ne_empty names key) (isFlush_fresh names key)
    refine ⟨_, _, replaced, indented, isReindented_exchangeUnits indent _, ?_⟩
    rw [lines_helperCode hne single flat named, List.getElem?_map, found]
    rfl

end Provide

/-- A template with an odd indentation, a line of spaces and an empty one, and two places for the
name in a line. -/
theorem provide_reindents_oddSpaces :
    let line := "   \x7bfn\x7d(x) + \x7bfn\x7d(y)"
    let template := ["num \x7bfn\x7d(num x) \x7b", line, "     ", "", "\x7d"]
    let provided := ({} : Definitions).provide {} "sum" template "\t"
    let code := "num sum(num x) \x7b\n\t sum(x) + sum(y)\n\t\t \n\n\x7d"
    provided.2.2.definitions.get? "sum" = some code ∧ (lines code).length = 5 ∧
      ∃ named result : String, IsReplacement namePlaceholder provided.1 line named ∧
        leadingSpaces named.toList = 3 ∧ IsReindented "\t" named result ∧
        (lines code)[1]? = some result := by
  intro line template provided code
  have written : provided.2.2.definitions.get? "sum" = some code := by decide
  obtain ⟨own, stored, length, lineByLine⟩ :=
    (provide_reindents {} {} "sum" "\t" template).1 rfl (by decide) (by decide)
  obtain rfl : own = code := Option.some.inj (stored.symm.trans written)
  obtain ⟨named, result, replaced, indented, reindented, second⟩ := lineByLine 1 line rfl
  exact ⟨stored, length, named, result, replaced, indented.trans (by decide), reindented, second⟩

end Definitions

end BlockScript
