import BlockScript.Json.Reader
import BlockScript.Proofs.Text.Nesting

/-! # Entries

An entry is a key and the code of a value. Its key is the text between double quotes, as it is. That
is a string which denotes the text exactly if the text has no quotes, no backslashes and no control
characters. Then entries whose values are closed are found again, line by line and behind
indentation. -/

namespace BlockScript.Json

open Text

/-- A text that a string can hold as it is. -/
def IsPlain (text : String) : Prop := ∀ c ∈ text.toList, c ≠ '"' ∧ c ≠ '\\' ∧ 0x20 ≤ c.toNat

instance (text : String) : Decidable (IsPlain text) :=
  List.decidableBAll (fun c => c ≠ '"' ∧ c ≠ '\\' ∧ 0x20 ≤ c.toNat) text.toList

/-- A key with quotes around it, and a value. -/
def entry (name value : String) : String := "\"" ++ name ++ "\": " ++ value

/-- The key at the front of a text. -/
def readKey : List Char → Option (String × List Char)
  | '"' :: rest => readString (rest.length + 1) rest
  | _ => none

/-- The key and the value of an entry. -/
def readEntry (part : List Char) : Option (String × String) := do
  let (key, rest) ← readKey (skipSpace part)
  let rest ← expect ":" (skipSpace rest)
  some (key, String.ofList (trim rest))

/-- The entries between commas. -/
def readEntries (body : String) : Option (List (String × String)) :=
  if (skipSpace body.toList).isEmpty then some []
  else (outerParts (Spot.code 0) body.toList).mapM readEntry

/-- Entries on lines of their own, behind indentation. -/
def indentedEntries (entries : List String) (mark : String) : String :=
  "\n" ++ prefixLines (",\n".intercalate entries) mark ++ "\n"

/-! ### What strings are made of -/

/-- Some characters are taken off the front of a text, and no control characters. -/
def Takes (cs rest : List Char) : Prop :=
  ∃ taken, taken ≠ [] ∧ cs = taken ++ rest ∧ ∀ c ∈ taken, 0x20 ≤ c.toNat

section Takes
variable {cs mid rest : List Char} {c : Char} {n : Nat}

theorem Takes.char (printable : 0x20 ≤ c.toNat) : Takes (c :: rest) rest :=
  ⟨[c], List.cons_ne_nil _ _, rfl, by simpa using printable⟩

theorem Takes.trans (first : Takes cs mid) (second : Takes mid rest) : Takes cs rest := by
  obtain ⟨front, some, rfl, hfront⟩ := first
  obtain ⟨back, -, rfl, hback⟩ := second
  refine ⟨front ++ back, by simp [some], by rw [List.append_assoc], fun c hc => ?_⟩
  exact (List.mem_append.mp hc).elim (hfront c) (hback c)

theorem printable_of_hexValue (h : hexValue c = some n) : 0x20 ≤ c.toNat := by
  have above {low : Char} (h : low ≤ c) : low.toNat ≤ c.toNat := h
  unfold hexValue at h
  split at h
  · next digit => exact Nat.le_trans (by decide) (above digit.1)
  · split at h
    · next small => exact Nat.le_trans (by decide) (above small.1)
    · split at h
      · next capital => exact Nat.le_trans (by decide) (above capital.1)
      · cases h

theorem takes_readHex4 (h : readHex4 cs = some (n, rest)) : Takes cs rest := by
  unfold readHex4 at h
  split at h
  · next a b c d tail =>
      simp only [Option.bind_eq_bind, Option.bind_eq_some_iff] at h
      obtain ⟨_, ha, _, hb, _, hc, _, hd, h⟩ := h
      obtain ⟨-, rfl⟩ := Prod.mk.inj (Option.some.inj h)
      exact (Takes.char (printable_of_hexValue ha)).trans <|
        (Takes.char (printable_of_hexValue hb)).trans <|
          (Takes.char (printable_of_hexValue hc)).trans (.char (printable_of_hexValue hd))
  · cases h

theorem takes_expect_unicode (h : expect "\\u" cs = some rest) : Takes cs rest := by
  unfold expect at h
  split at h
  · next front =>
      obtain ⟨tail, rfl⟩ := List.isPrefixOf_iff_prefix.mp front
      obtain rfl := Option.some.inj h
      exact (Takes.char (by decide)).trans (.char (by decide))
  · cases h

theorem takes_readUnicode (h : readUnicode cs = some (c, rest)) : Takes cs rest := by
  unfold readUnicode at h
  simp only [Option.bind_eq_bind, Option.bind_eq_some_iff] at h
  obtain ⟨⟨n, mid⟩, first, h⟩ := h
  dsimp only at h
  split at h
  · obtain ⟨after, second, ⟨low, last⟩, third, h⟩ := by
      simpa only [Option.bind_eq_some_iff] using h
    dsimp only at h
    split at h
    · obtain ⟨-, rfl⟩ := Prod.mk.inj (Option.some.inj h)
      have behind := (takes_expect_unicode second).trans (takes_readHex4 third)
      exact (takes_readHex4 first).trans behind
    · cases h
  · split at h
    · cases h
    · obtain ⟨-, rfl⟩ := Prod.mk.inj (Option.some.inj h)
      exact takes_readHex4 first

theorem takes_readEscape (h : readEscape cs = some (c, rest)) : Takes cs rest := by
  unfold readEscape at h
  split at h
  · exact (Takes.char (by decide)).trans (takes_readUnicode h)
  all_goals
    cases h
    try exact .char (by decide)

end Takes

/-- A string is read from some printable characters up to a quote. They are as many as it denotes
only if they are plain, and then it denotes them. -/
theorem exists_of_readChars {fuel : Nat} {cs out rest : List Char}
    (h : readChars fuel cs = some (out, rest)) :
    ∃ content, cs = content ++ '"' :: rest ∧ (∀ c ∈ content, 0x20 ≤ c.toNat) ∧
      (out.length < content.length ∨ content = out ∧ ∀ c ∈ content, c ≠ '"' ∧ c ≠ '\\') := by
  induction fuel generalizing cs out with
  | zero => cases h
  | succ fuel ih =>
      cases cs with
      | nil => cases h
      | cons c tail =>
          rw [readChars] at h
          split at h
          · next quote =>
              cases h
              exact ⟨[], by rw [quote, List.nil_append], nofun, .inr ⟨rfl, nofun⟩⟩
          · next unquoted =>
              split at h
              · next escape =>
                  simp only [Option.bind_eq_bind, Option.bind_eq_some_iff] at h
                  obtain ⟨⟨d, mid⟩, one, ⟨more, _⟩, others, h⟩ := h
                  cases h
                  obtain ⟨taken, some, rfl, htaken⟩ := takes_readEscape one
                  obtain ⟨content, rfl, hcontent, size⟩ := ih others
                  refine ⟨c :: taken ++ content, by simp, ?_, .inl ?_⟩
                  · intro d hd
                    rcases List.mem_append.mp hd with hd | hd
                    · exact (List.forall_mem_cons.mpr ⟨escape ▸ by decide, htaken⟩) d hd
                    · exact hcontent d hd
                  · have taken := List.length_pos_iff.mpr some
                    have others : more.length ≤ content.length := by
                      rcases size with shorter | ⟨rfl, -⟩
                      · exact Nat.le_of_lt shorter
                      · exact Nat.le_refl _
                    simp only [List.length_cons, List.length_append]
                    omega
              · next unescaped =>
                  split at h
                  · cases h
                  · next printable =>
                      simp only [Option.bind_eq_bind, Option.bind_eq_some_iff] at h
                      obtain ⟨⟨more, _⟩, others, h⟩ := h
                      cases h
                      obtain ⟨content, rfl, hcontent, size⟩ := ih others
                      refine ⟨c :: content, rfl, List.forall_mem_cons.mpr
                        ⟨Nat.le_of_not_lt printable, hcontent⟩, ?_⟩
                      rcases size with shorter | ⟨rfl, hplain⟩
                      · exact .inl (Nat.succ_lt_succ shorter)
                      · exact .inr ⟨rfl, List.forall_mem_cons.mpr
                          ⟨⟨unquoted, unescaped⟩, hplain⟩⟩

/-- Plain characters denote themselves. -/
theorem readChars_of_plain {content rest : List Char}
    (plain : ∀ c ∈ content, c ≠ '"' ∧ c ≠ '\\' ∧ 0x20 ≤ c.toNat) {fuel : Nat}
    (enough : content.length < fuel) :
    readChars fuel (content ++ '"' :: rest) = some (content, rest) := by
  induction content generalizing fuel with
  | nil =>
      obtain ⟨fuel, rfl⟩ := Nat.exists_eq_add_one.mpr enough
      rfl
  | cons c tail ih =>
      obtain ⟨⟨unquoted, unescaped, printable⟩, others⟩ := List.forall_mem_cons.mp plain
      rw [List.length_cons] at enough
      obtain ⟨fuel, rfl⟩ := Nat.exists_eq_add_one.mpr (Nat.zero_lt_of_lt enough)
      rw [List.cons_append, readChars, if_neg unquoted, if_neg unescaped,
        if_neg (Nat.not_lt.mpr printable), ih others (Nat.lt_of_succ_lt_succ enough)]
      rfl

theorem IsPlain.newline_not_mem {text : String} (plain : IsPlain text) : '\n' ∉ text.toList :=
  fun newline => absurd (plain '\n' newline).2.2 (by decide)

theorem readKey_of_plain {name : String} (plain : IsPlain name) (rest : List Char) :
    readKey ('"' :: (name.toList ++ '"' :: rest)) = some (name, rest) := by
  have room : name.toList.length < (name.toList ++ '"' :: rest).length + 1 := by
    rw [List.length_append, List.length_cons]
    omega
  rw [readKey, readString, readChars_of_plain plain room]
  simp

/-- The text of a key, moved with its lines and up to the quote behind it, is the string of the text
exactly if the text is plain. -/
theorem readKey_iff (name : String) (mark rest : List Char) :
    readKey ('"' :: (shift mark name.toList ++ '"' :: rest)) = some (name, rest) ↔
      IsPlain name := by
  refine ⟨fun h => ?_, fun plain => ?_⟩
  · simp only [readKey, readString, Option.bind_eq_bind, Option.bind_eq_some_iff] at h
    obtain ⟨⟨out, _⟩, chars, h⟩ := h
    obtain ⟨rfl, rfl⟩ := Prod.mk.inj (Option.some.inj h)
    obtain ⟨content, split, printable, size⟩ := exists_of_readChars chars
    obtain rfl := List.append_cancel_right split
    rw [String.toList_ofList] at *
    -- A newline is a control character, so nothing was moved.
    have line : '\n' ∉ out := fun newline =>
      absurd (printable '\n' (newline_mem_shift mark newline)) (by decide)
    rw [shift_of_not_mem mark line] at printable size
    rcases size with shorter | ⟨-, plain⟩
    · exact absurd shorter (Nat.lt_irrefl _)
    · intro c hc
      rw [String.toList_ofList] at hc
      exact ⟨(plain c hc).1, (plain c hc).2, printable c hc⟩
  · rw [shift_of_not_mem mark plain.newline_not_mem]
    exact readKey_of_plain plain rest

/-! ### Entries that are closed -/

theorem toList_entry (name value : String) :
    (entry name value).toList = '"' :: (name.toList ++ '"' :: ':' :: ' ' :: value.toList) := by
  simp [entry]

/-- A plain text leads through a string. -/
theorem IsPlain.walks {name : String} (plain : IsPlain name) (depth : Nat) :
    Walks ⟨.literal true, depth⟩ name ⟨.literal true, depth⟩ := by
  unfold IsPlain at plain
  unfold Walks
  generalize name.toList = cs at plain
  induction cs with
  | nil => rfl
  | cons c tail ih =>
      obtain ⟨⟨unquoted, unescaped, -⟩, others⟩ := List.forall_mem_cons.mp plain
      simp only [walk, Spot.next, quoteMark, if_neg unescaped, if_true, if_neg unquoted,
        Option.bind_some]
      exact ih others

theorem isClosed_entry {name value : String} (plain : IsPlain name) (closed : IsClosed value) :
    IsClosed (entry name value) :=
  fun depth => (((Walks.start rfl rfl).append (plain.walks depth)).text rfl rfl).code closed

/-- A value as it stands behind indentation. -/
def movedValue (mark value : String) : String :=
  String.ofList (trim (shift mark.toList value.toList))

section Moved
variable {mark : List Char} (blank : IsIndentation mark)
include blank

theorem isBlank_of_indentation : ∀ c ∈ mark, isBlank c = true := fun c hc => by
  rcases blank c hc with rfl | rfl <;> decide

theorem skipSpace_line (rest : List Char) :
    skipSpace ('\n' :: (mark ++ '"' :: rest)) = '"' :: rest := by
  have space : ∀ c ∈ '\n' :: mark, isSpace c = true := by
    refine List.forall_mem_cons.mpr ⟨by decide, fun c hc => ?_⟩
    rcases blank c hc with rfl | rfl <;> decide
  rw [skipSpace, ← List.cons_append, List.dropWhile_append_of_pos space]
  rfl

/-- An entry on a line of its own. -/
theorem readEntry_of_plain {name : String} (plain : IsPlain name) (value : List Char) :
    readEntry ('\n' :: (mark ++ '"' :: (name.toList ++ '"' :: ':' :: ' ' :: value))) =
      some (name, String.ofList (trim value)) := by
  have colon : expect ":" (skipSpace (':' :: ' ' :: value)) = some (' ' :: value) := rfl
  rw [readEntry, skipSpace_line blank, readKey_of_plain plain]
  simp only [Option.bind_eq_bind, Option.bind_some, colon]
  rfl

/-- Indentation behind the last newline is all that is missing where marks are put between lines. -/
theorem exists_shift_eq (cs : List Char) : ∃ tail, (∀ c ∈ tail, isBlank c = true) ∧
    shift mark cs = markTail mark cs ++ tail := by
  rcases List.eq_nil_or_concat cs with rfl | ⟨front, last, rfl⟩
  · exact ⟨[], nofun, rfl⟩
  · have tail : markTail mark [last] = [last] := by simp [markTail]
    rw [List.concat_eq_append, markTail_append _ _ (List.cons_ne_nil _ _), tail, shift_append,
      shift_cons]
    split
    · exact ⟨mark, isBlank_of_indentation blank, by simp⟩
    · exact ⟨[], nofun, by simp⟩

end Moved

theorem trim_append {cs tail : List Char} (blank : ∀ c ∈ tail, isBlank c = true) :
    trim (cs ++ tail) = trim cs := by
  have behind : ∀ c ∈ tail.reverse, isBlank c = true := fun c hc => blank c (List.mem_reverse.mp hc)
  have back (xs : List Char) : trimEnd (xs ++ tail) = trimEnd xs := by
    rw [trimEnd, List.reverse_append, List.dropWhile_append_of_pos behind, ← trimEnd]
  have gone : trimStart tail = [] := by
    rw [trimStart, ← List.append_nil tail, List.dropWhile_append_of_pos blank]
    rfl
  rw [trim, trim, trimStart, List.dropWhile_append, ← trimStart, ← trimStart]
  split
  · next empty => rw [gone, List.isEmpty_iff.mp empty]
  · exact back _

theorem markTail_append_of_not_mem (mark : List Char) {xs : List Char} (h : '\n' ∉ xs)
    (ys : List Char) : markTail mark (xs ++ ys) = xs ++ markTail mark ys := by
  induction xs with
  | nil => rfl
  | cons c rest ih =>
      rw [List.mem_cons, not_or] at h
      rw [List.cons_append, markTail, if_neg fun newline => h.1 newline.1.symm, ih h.2]
      rfl

/-! ### Entries are found again -/

/-- The entries of some keys and values. -/
def entriesOf (members : List (String × String)) : List String :=
  members.map fun member => entry member.1 member.2

theorem intercalate_entriesOf_ne (first : String × String) (others : List (String × String)) :
    ",\n".intercalate (entriesOf (first :: others)) ≠ "" := by
  cases others <;> simp [entriesOf, entry, String.intercalate_cons_cons]

/-- The lines of some entries start with a newline, the mark and the quote of the first key. -/
theorem exists_of_indentedEntries (first : String × String) (others : List (String × String))
    (mark : String) : ∃ tail, (indentedEntries (entriesOf (first :: others)) mark).toList =
      '\n' :: (mark.toList ++ '"' :: tail) := by
  obtain ⟨tail, opened⟩ : ∃ tail, (",\n".intercalate (entriesOf (first :: others))).toList =
      '"' :: tail := by
    refine List.head?_eq_some_iff.mp ?_
    cases others <;> simp [entriesOf, toList_entry, String.intercalate_cons_cons]
  have quote : markTail mark.toList ('"' :: tail) = '"' :: markTail mark.toList tail :=
    markTail_append_of_not_mem mark.toList (show '\n' ∉ ['"'] by decide) tail
  refine ⟨markTail mark.toList tail ++ ['\n'], ?_⟩
  simp [indentedEntries, toList_prefixLines (intercalate_entriesOf_ne first others), opened, quote]

theorem toList_indentedEntries_singleton (member : String × String) (mark : String) :
    (indentedEntries (entriesOf [member]) mark).toList = '\n' :: (mark.toList ++
      (markTail mark.toList (entry member.1 member.2).toList ++ ['\n'])) := by
  have filled : entry member.1 member.2 ≠ "" := by simp [entry]
  simp [indentedEntries, entriesOf, toList_prefixLines filled]

/-- Between two entries stands a comma. -/
theorem toList_indentedEntries_cons (first second : String × String)
    (more : List (String × String)) (mark : String) :
    (indentedEntries (entriesOf (first :: second :: more)) mark).toList =
      ('\n' :: (mark.toList ++ shift mark.toList (entry first.1 first.2).toList)) ++
        ',' :: (indentedEntries (entriesOf (second :: more)) mark).toList := by
  have later := intercalate_entriesOf_ne second more
  have filled : (",\n".intercalate (entriesOf (second :: more))).toList ≠ [] :=
    fun empty => later (String.toList_eq_nil_iff.mp empty)
  have chars : (",\n".intercalate (entriesOf (first :: second :: more))).toList =
      ((entry first.1 first.2).toList ++ [',', '\n']) ++
        (",\n".intercalate (entriesOf (second :: more))).toList := by
    simp [entriesOf, String.intercalate_cons_cons]
  simp only [indentedEntries, String.toList_append,
    toList_prefixLines (intercalate_entriesOf_ne first (second :: more)),
    toList_prefixLines later, chars, markTail_append _ _ filled]
  simp

section Found
variable {mark : String} (blank : IsIndentation mark.toList)
include blank

/-- The first entry on a line of its own. -/
theorem readEntry_shift {name : String} (plain : IsPlain name) (value : String) :
    readEntry ('\n' :: (mark.toList ++ shift mark.toList (entry name value).toList)) =
      some (name, movedValue mark value) := by
  have front : shift mark.toList (entry name value).toList =
      '"' :: (name.toList ++ '"' :: ':' :: ' ' :: shift mark.toList value.toList) := by
    simp [toList_entry, shift_of_not_mem _ plain.newline_not_mem]
  rw [front, readEntry_of_plain blank plain, movedValue]

/-- The last entry, up to the end of its line. -/
theorem readEntry_markTail {name : String} (plain : IsPlain name) (value : String) :
    let line := markTail mark.toList (entry name value).toList ++ ['\n']
    readEntry ('\n' :: (mark.toList ++ line)) = some (name, movedValue mark value) := by
  intro text
  have line : '\n' ∉ '"' :: (name.toList ++ ['"', ':', ' ']) := by
    simp [plain.newline_not_mem]
  have front : text = '"' :: (name.toList ++
      '"' :: ':' :: ' ' :: (markTail mark.toList value.toList ++ ['\n'])) := by
    have chars : (entry name value).toList =
        '"' :: (name.toList ++ ['"', ':', ' ']) ++ value.toList := by
      simp [toList_entry]
    simp only [text]
    rw [chars, markTail_append_of_not_mem _ line]
    simp
  obtain ⟨tail, htail, moved⟩ := exists_shift_eq blank value.toList
  have newline : ∀ c ∈ ['\n'], isBlank c = true := List.forall_mem_singleton.mpr rfl
  rw [front, readEntry_of_plain blank plain, movedValue, moved, trim_append newline,
    trim_append htail]

/-- Between the commas, the entries are read one after the other. -/
theorem mapM_readEntry (first : String × String) (others : List (String × String))
    (plain : ∀ member ∈ first :: others, IsPlain member.1)
    (closed : ∀ member ∈ first :: others, IsClosed member.2) :
    (outerParts (Spot.code 0) (indentedEntries (entriesOf (first :: others)) mark).toList).mapM
      readEntry = some ((first :: others).map fun member =>
        (member.1, movedValue mark member.2)) := by
  have start (rest : List Char) : walk (Spot.code 0) ('\n' :: (mark.toList ++ rest)) =
      walk (Spot.code 0) rest := by
    rw [walk, show (Spot.code 0).next '\n' = some (Spot.code 0) from rfl, Option.bind_some,
      walk_append_of (blank.walk 0)]
  induction others generalizing first with
  | nil =>
      have plain := plain first List.mem_cons_self
      have own := isClosed_entry plain (closed first List.mem_cons_self) 0
      have whole : walk (Spot.code 0) ('\n' :: (mark.toList ++
          (markTail mark.toList (entry first.1 first.2).toList ++ ['\n']))) =
            some (Spot.code 0) := by
        rw [start, walk_append, walk_markTail blank, own]
        rfl
      rw [toList_indentedEntries_singleton, outerParts_of_walk whole, List.mapM_cons,
        readEntry_markTail blank plain]
      rfl
  | cons second more ih =>
      obtain ⟨plain, plainOthers⟩ := List.forall_mem_cons.mp plain
      obtain ⟨closed, closedOthers⟩ := List.forall_mem_cons.mp closed
      have whole : walk (Spot.code 0)
          ('\n' :: (mark.toList ++ shift mark.toList (entry first.1 first.2).toList)) =
            some (Spot.code 0) := by
        rw [start, walk_shift blank, isClosed_entry plain closed 0]
      rw [toList_indentedEntries_cons, outerParts_append whole ',' rfl, List.mapM_cons,
        readEntry_shift blank plain, ih second plainOthers closedOthers]
      rfl

/-- Entries on lines of their own are found again, if their keys are plain and their values
closed. -/
theorem readEntries_indentedEntries {members : List (String × String)}
    (plain : ∀ member ∈ members, IsPlain member.1)
    (closed : ∀ member ∈ members, IsClosed member.2) :
    readEntries (indentedEntries (entriesOf members) mark) =
      some (members.map fun member => (member.1, movedValue mark member.2)) := by
  cases members with
  | nil => simp [readEntries, indentedEntries, entriesOf, skipSpace, isSpace]
  | cons first others =>
      obtain ⟨tail, opened⟩ := exists_of_indentedEntries first others mark
      have inked : (skipSpace (indentedEntries (entriesOf (first :: others)) mark).toList).isEmpty =
          false := by
        rw [opened, skipSpace_line blank]
        rfl
      rw [readEntries, inked, if_neg Bool.false_ne_true,
        mapM_readEntry blank first others plain closed]

end Found

end BlockScript.Json
