import BlockScript.CommandLine.Run
import BlockScript.Proofs.Text.Replacement

/-! # What arguments ask for

A flag sets the one option that it names, and every other option is that of the file. The format of
the input is the one that a flag names, or the one that the name of the file ends in, or the one
that the text begins as. -/

namespace BlockScript

theorem Number.lowerAscii_eq_toLower (c : Char) : lowerAscii c = c.toLower := by
  have same : ('A' ≤ c ∧ c ≤ 'Z') = (c.val ≥ 'A'.val ∧ c.val ≤ 'Z'.val) := rfl
  unfold lowerAscii Char.toLower
  simp only [same]
  split
  · next capital =>
      have bound : c.val.toNat ≤ 90 := capital.2
      have valid : (c.toNat + 32).isValidChar := .inl (show c.val.toNat + 32 < 0xd800 by omega)
      rw [Char.ofNat, dif_pos valid]
      apply Char.toNat_inj.mp
      change c.val.toNat + 32 = (c.val + 32).toNat
      rw [UInt32.toNat_add, Nat.mod_eq_of_lt]
      · rfl
      · change c.val.toNat + 32 < 2 ^ 32
        omega
  · rfl

namespace WorkspaceFormat

/-! ### Extensions -/

/-- What the name of a file in a format ends in. -/
def extension : WorkspaceFormat → String
  | xml => "xml"
  | json => "json"

/-- The name of a file, which is the last part of its path but for empty ones and single dots, has
something in front of its last dot and an extension behind it, in small letters or capitals. -/
def HasExtension (path extension : String) : Prop :=
  ∃ (before after : List (List Char)) (stem written : List Char),
    path.toList.splitOn '/' = before ++ (stem ++ '.' :: written) :: after ∧
    (∀ part ∈ after, part = [] ∨ part = ['.']) ∧ stem ≠ [] ∧ '.' ∉ written ∧
    written.map Char.toLower = extension.toList

/-- The last part that is not left out. -/
theorem fileName?_eq_some_iff {path : String} {name : List Char} :
    fileName? path = some name ↔ ∃ before after,
      path.toList.splitOn '/' = before ++ name :: after ∧
        (∀ part ∈ after, part = [] ∨ part = ['.']) ∧
        name ≠ [] ∧ name ≠ ['.'] ∧ name ≠ ['.', '.'] := by
  rw [fileName?, Option.filter_eq_some_iff, pathParts, List.getLast?_filter,
    List.find?_eq_some_iff_append]
  constructor
  · rintro ⟨⟨kept, after, before, cut, left⟩, up⟩
    refine ⟨before.reverse, after.reverse, ?_, ?_, ?_⟩
    · rw [← List.reverse_reverse (path.toList.splitOn '/'), cut]
      simp
    · simpa [or_iff_not_imp_left] using left
    · simpa [and_assoc] using And.intro kept up
  · rintro ⟨before, after, cut, left, filled, dot, up⟩
    refine ⟨⟨by simpa using ⟨filled, dot⟩, after.reverse, before.reverse, ?_, ?_⟩, by simpa using up⟩
    · rw [cut]
      simp
    · simpa [or_iff_not_imp_left] using left

theorem extension?_eq_some_iff {name written : List Char} :
    extension? name = some written ↔
      ∃ stem, name = stem ++ '.' :: written ∧ stem ≠ [] ∧ '.' ∉ written := by
  have whole := List.takeWhile_append_dropWhile (p := (· ≠ '.')) (l := name.reverse)
  constructor
  · intro h
    simp only [extension?] at h
    split at h
    case h_1 dot last front dropped =>
      obtain rfl := Option.some.inj h
      have stopped := List.head?_dropWhile_not (· ≠ '.') name.reverse
      have dotless := List.all_eq_true.mp (List.all_takeWhile (p := (· ≠ '.')) (l := name.reverse))
      rw [dropped] at stopped whole
      obtain rfl : dot = '.' := by simpa using stopped
      generalize name.reverse.takeWhile (· ≠ '.') = ending at whole dotless
      refine ⟨(last :: front).reverse, ?_, by simp, fun mem => ?_⟩
      · rw [← List.reverse_reverse name, ← whole]
        simp
      · simpa using dotless '.' (List.mem_reverse.mp mem)
    case h_2 => cases h
  · rintro ⟨stem, rfl, filled, dotless⟩
    have passes : ∀ c ∈ written.reverse, decide (c ≠ '.') = true := by
      rintro c mem
      simpa using fun same : c = '.' => dotless (same ▸ List.mem_reverse.mp mem)
    obtain ⟨last, front, ends⟩ := List.exists_cons_of_ne_nil (List.reverse_ne_nil_iff.mpr filled)
    have turned : (stem ++ '.' :: written).reverse = written.reverse ++ '.' :: last :: front := by
      simp [ends]
    rw [extension?, turned, List.dropWhile_append_of_pos passes, List.takeWhile_append_of_pos passes]
    simp

/-- The name of the file has something in front of its last dot, so it is neither a dot nor two. -/
theorem bind_extension?_eq_some_iff {path : String} {written : List Char} (filled : written ≠ []) :
    (fileName? path).bind extension? = some written ↔ ∃ before after stem,
      path.toList.splitOn '/' = before ++ (stem ++ '.' :: written) :: after ∧
        (∀ part ∈ after, part = [] ∨ part = ['.']) ∧ stem ≠ [] ∧ '.' ∉ written := by
  simp only [Option.bind_eq_some_iff, extension?_eq_some_iff, fileName?_eq_some_iff]
  constructor
  · rintro ⟨_, ⟨before, after, cut, left, -⟩, stem, rfl, front, dotless⟩
    exact ⟨before, after, stem, cut, left, front, dotless⟩
  · rintro ⟨before, after, stem, cut, left, front, dotless⟩
    have long : 3 ≤ (stem ++ '.' :: written).length := by
      have := List.length_pos_iff.mpr filled
      have := List.length_pos_iff.mpr front
      simp only [List.length_append, List.length_cons]
      omega
    have other (short : List Char) (h : short.length < 3) : stem ++ '.' :: written ≠ short :=
      fun same => absurd (same ▸ long) (by omega)
    exact ⟨_, ⟨before, after, cut, left, other _ (by decide), other _ (by decide),
      other _ (by decide)⟩, stem, rfl, front, dotless⟩

theorem ofPath?_eq_some_iff {path : String} {f : WorkspaceFormat} :
    ofPath? path = some f ↔ HasExtension path f.extension := by
  have named : ofPath? path = some f ↔ ∃ written,
      (fileName? path).bind extension? = some written ∧
        written.map Char.toLower = f.extension.toList := by
    unfold ofPath?
    rw [funext Number.lowerAscii_eq_toLower]
    cases (fileName? path).bind extension? with
    | none => simp
    | some written =>
        simp only [Option.map_some, Option.some.injEq, exists_eq_left']
        rw [← String.toList_ofList (l := written.map Char.toLower), String.toList_inj,
          String.ofList_toList]
        constructor
        · intro h
          split at h
          case h_1 told => exact (Option.some.inj told).trans (congrArg extension (Option.some.inj h))
          case h_2 told => exact (Option.some.inj told).trans (congrArg extension (Option.some.inj h))
          case h_3 => cases h
        · intro same
          rw [same]
          cases f <;> rfl
  rw [named, HasExtension]
  constructor
  · rintro ⟨written, found, same⟩
    have filled : written ≠ [] := by
      rintro rfl
      cases f <;> exact absurd same (by decide)
    obtain ⟨before, after, stem, cut, left, front, dotless⟩ :=
      (bind_extension?_eq_some_iff filled).mp found
    exact ⟨before, after, stem, written, cut, left, front, dotless, same⟩
  · rintro ⟨before, after, stem, written, cut, left, front, dotless, same⟩
    have filled : written ≠ [] := by
      rintro rfl
      cases f <;> exact absurd same (by decide)
    exact ⟨written,
      (bind_extension?_eq_some_iff filled).mpr ⟨before, after, stem, cut, left, front, dotless⟩,
      same⟩

/-! ### The beginning of a text -/

/-- Behind white space, a text begins with a bracket of JSON. -/
def BeginsAsJson (text : String) : Prop :=
  ∃ blank bracket rest, text.toList = blank ++ bracket :: rest ∧
    (∀ c ∈ blank, Text.isBlank c = true) ∧ (bracket = '\x7b' ∨ bracket = '[')

theorem sniff_eq_json_iff (text : String) : sniff text = json ↔ BeginsAsJson text := by
  have whole := List.takeWhile_append_dropWhile (p := Text.isBlank) (l := text.toList)
  unfold sniff
  constructor
  · intro h
    split at h
    case h_3 => cases h
    case h_1 rest found =>
      exact ⟨_, _, rest, (whole.symm.trans (congrArg _ found)), fun c mem =>
        List.all_eq_true.mp List.all_takeWhile c mem, .inl rfl⟩
    case h_2 rest found =>
      exact ⟨_, _, rest, (whole.symm.trans (congrArg _ found)), fun c mem =>
        List.all_eq_true.mp List.all_takeWhile c mem, .inr rfl⟩
  · rintro ⟨blank, bracket, rest, cut, passed, rfl | rfl⟩
    all_goals
      rw [Text.trimStart, cut, List.dropWhile_append_of_pos passed]
      rfl

end WorkspaceFormat

namespace CommandLine

/-! ### Options under the flags -/

/-- An option that a flag may set is what the value of the flag makes it, and without the flag it is
as it was. -/
def IsSet {α β : Type} (flag : Option α) (makes : α → β → Prop) (old new : β) : Prop :=
  match flag with
  | none => new = old
  | some value => makes value new

/-- A template as a flag has it, where a backslash and an `n` stand for a newline. -/
def IsTemplate (raw : String) (template : Option String) : Prop :=
  ∃ text, Text.IsReplacement "\\n" "\n" raw text ∧ template = some text

theorem isSet_template (flag old : Option String) :
    IsSet flag IsTemplate old ((flag.map Arguments.templateText).or old) := by
  cases flag with
  | none => rfl
  | some raw => exact ⟨_, Text.isReplacement_replaceAll (by decide) raw "\n", rfl⟩

namespace Arguments

/-- The options of a run are those that the flags set, and for the rest those it starts from. -/
structure Overrides (a : Arguments) (base o : Options) : Prop where
  statementPrefix : IsSet a.statementPrefix IsTemplate base.statementPrefix o.statementPrefix
  statementSuffix : IsSet a.statementSuffix IsTemplate base.statementSuffix o.statementSuffix
  loopTrap : IsSet a.loopTrap IsTemplate base.loopTrap o.loopTrap
  oneBasedIndex : o.oneBasedIndex = true ↔ a.zeroBased = false ∧ base.oneBasedIndex = true
  indent : IsSet a.indent (fun width text => text.toList = List.replicate width ' ')
    base.indent o.indent
  errorPolicy : o.errorPolicy = .comment ↔ a.keepGoing = true ∨ base.errorPolicy = .comment

theorem overrides_override (a : Arguments) (base : Options) : a.Overrides base (a.override base) where
  statementPrefix := isSet_template _ _
  statementSuffix := isSet_template _ _
  loopTrap := isSet_template _ _
  oneBasedIndex := by
    unfold override
    cases a.zeroBased <;> simp
  indent := by
    unfold override
    cases a.indent with
    | none => rfl
    | some width => exact String.toList_ofList
  errorPolicy := by
    unfold override
    cases a.keepGoing <;> simp

/-! ### The format of the input -/

/-- The format is the one that the flag names, else the one of the extension, else the one that the
text begins as. -/
inductive IsFormat (a : Arguments) (path text : String) : WorkspaceFormat → Prop
  | asked {f : WorkspaceFormat} (flag : a.format = some f) : IsFormat a path text f
  | told {f : WorkspaceFormat} (noFlag : a.format = none)
      (ends : WorkspaceFormat.HasExtension path f.extension) : IsFormat a path text f
  | sniffed {f : WorkspaceFormat} (noFlag : a.format = none)
      (untold : ∀ other : WorkspaceFormat, ¬ WorkspaceFormat.HasExtension path other.extension)
      (begins : f = .json ↔ WorkspaceFormat.BeginsAsJson text) : IsFormat a path text f

theorem isFormat_formatOf (a : Arguments) (path text : String) :
    a.IsFormat path text (a.formatOf path text) := by
  unfold formatOf
  cases flag : a.format with
  | some f => exact .asked flag
  | none =>
      cases ends : WorkspaceFormat.ofPath? path with
      | some f => exact .told flag (WorkspaceFormat.ofPath?_eq_some_iff.mp ends)
      | none =>
          refine .sniffed flag (fun other has => ?_) (WorkspaceFormat.sniff_eq_json_iff text)
          rw [WorkspaceFormat.ofPath?_eq_some_iff.mpr has] at ends
          cases ends

end Arguments

end CommandLine

end BlockScript
