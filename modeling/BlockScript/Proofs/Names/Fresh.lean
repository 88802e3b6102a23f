import BlockScript.Names
import Mathlib.Data.List.Nodup
import Mathlib.Data.List.Perm.Subperm

/-! # Fresh names

A new name is the first free candidate. There is one, since there are more candidates than
occupied names; and it is an identifier, since the safe form of any name is one and digits may
follow it. -/

namespace BlockScript.Names

open Text

/-- A character of an identifier. -/
def isNameChar (c : Char) : Bool := isAsciiAlphanumeric c || c == '_'

/-- Letters, digits and underscores, and no digit first. -/
def isIdentifier (cs : List Char) : Bool :=
  match cs with
  | [] => false
  | c :: _ => !isAsciiDigit c && cs.all isNameChar

theorem isIdentifier_iff (cs : List Char) :
    isIdentifier cs = true ↔
      (∃ c rest, cs = c :: rest ∧ isAsciiDigit c = false) ∧ ∀ c ∈ cs, isNameChar c = true := by
  cases cs with
  | nil => simp [isIdentifier]
  | cons c rest => simp [isIdentifier]

/-- An identifier has none of the other characters. -/
theorem not_mem_of_isIdentifier {cs : List Char} (h : isIdentifier cs = true) {c : Char}
    (other : isNameChar c = false) : c ∉ cs := by
  intro mem
  rw [((isIdentifier_iff cs).mp h).2 c mem] at other
  contradiction

theorem isNameChar_of_isAsciiDigit {c : Char} (h : isAsciiDigit c = true) :
    isNameChar c = true := by
  simp [isNameChar, isAsciiAlphanumeric, h]

/-! Safe names are identifiers. -/

theorem isNameChar_hexDigit {n : Nat} (h : n < 16) : isNameChar (hexDigit n) = true := by
  have hall : ∀ k < 16, isNameChar (hexDigit k) = true := by decide
  exact hall n h

theorem isNameChar_of_mem_byteCode (b : UInt8) {c : Char} (h : c ∈ byteCode b) :
    isNameChar c = true := by
  have hb : b.toNat < 256 := b.toNat_lt
  simp only [byteCode, List.mem_cons, List.not_mem_nil, or_false] at h
  rcases h with rfl | rfl | rfl
  · rfl
  · exact isNameChar_hexDigit (by omega)
  · exact isNameChar_hexDigit (by omega)

theorem isNameChar_of_mem_safeChar (a : Char) {c : Char} (h : c ∈ safeChar a) :
    isNameChar c = true := by
  unfold safeChar at h
  split at h
  · next ha =>
      rw [List.mem_singleton] at h
      simp [isNameChar, h, ha]
  · split at h
    · rw [List.mem_singleton] at h
      simp [isNameChar, h]
    · obtain ⟨b, -, hc⟩ := List.mem_flatMap.mp h
      exact isNameChar_of_mem_byteCode b hc

theorem safeChar_ne_nil (a : Char) : safeChar a ≠ [] := by
  unfold safeChar
  split
  · simp
  · split
    · simp
    · intro h
      rw [List.flatMap_eq_nil_iff] at h
      obtain ⟨b, rest, hb⟩ := List.exists_cons_of_ne_nil (String.utf8EncodeChar_ne_nil (c := a))
      have := h b (by rw [hb]; exact List.mem_cons_self)
      simp [byteCode] at this

theorem isIdentifier_guardDigit {cs : List Char} (hne : cs ≠ [])
    (h : ∀ c ∈ cs, isNameChar c = true) : isIdentifier (guardDigit cs) = true := by
  obtain ⟨c, rest, rfl⟩ := List.exists_cons_of_ne_nil hne
  rw [isIdentifier_iff]
  unfold guardDigit
  split
  · next heq => cases heq
  · next d tail heq =>
      cases heq
      split
      · refine ⟨⟨'m', _, rfl, rfl⟩, ?_⟩
        intro a ha
        rcases List.mem_append.mp ha with ha | ha
        · have hmy : "my_".toList.all isNameChar = true := by decide
          exact List.all_eq_true.mp hmy a ha
        · exact h a ha
      · next hd => exact ⟨⟨c, rest, rfl, by simpa using hd⟩, h⟩

/-- Whatever a user calls a thing, its safe name is an identifier. -/
theorem isIdentifier_safeName (name : String) : isIdentifier (safeName name).toList = true := by
  unfold safeName
  split
  · decide
  · next hne =>
      rw [String.toList_ofList]
      apply isIdentifier_guardDigit
      · intro h
        rw [List.flatMap_eq_nil_iff] at h
        obtain ⟨c, rest, hc⟩ := List.exists_cons_of_ne_nil (fun h => hne (String.toList_eq_nil_iff.mp h))
        exact safeChar_ne_nil c (h c (by rw [hc]; exact List.mem_cons_self))
      · intro c hc
        obtain ⟨a, -, ha⟩ := List.mem_flatMap.mp hc
        exact isNameChar_of_mem_safeChar a ha

theorem isAsciiDigit_of_mem_toString (n : Nat) {c : Char} (h : c ∈ (toString n).toList) :
    isAsciiDigit c = true := by
  rw [Nat.toString_eq_ofList_toDigits, String.toList_ofList] at h
  have hd := Nat.isDigit_of_mem_toDigits (by omega) (by omega) h
  simp only [Char.isDigit, Bool.and_eq_true, decide_eq_true_eq] at hd
  simp only [isAsciiDigit, Bool.and_eq_true, decide_eq_true_eq]
  exact hd

theorem isIdentifier_candidate {base : String} (h : isIdentifier base.toList = true) (n : Nat) :
    isIdentifier (candidate base n).toList = true := by
  cases n with
  | zero => exact h
  | succ n =>
      rw [isIdentifier_iff] at h ⊢
      obtain ⟨⟨c, rest, hb, hc⟩, hall⟩ := h
      simp only [candidate, String.toList_append]
      refine ⟨⟨c, rest ++ (toString (n + 2)).toList, by rw [hb]; rfl, hc⟩, ?_⟩
      intro a ha
      rcases List.mem_append.mp ha with ha | ha
      · exact hall a ha
      · exact isNameChar_of_isAsciiDigit (isAsciiDigit_of_mem_toString _ ha)

/-! The candidates are pairwise different, so the search among them succeeds. -/

theorem toString_injective : Function.Injective (toString : Nat → String) := by
  intro m n h
  have hd := congrArg (fun s : String => Nat.ofDigitChars 10 s.toList 0) h
  simpa [Nat.toString_eq_ofList_toDigits] using hd

theorem candidate_injective (base : String) : Function.Injective (candidate base) := by
  have hne (n : Nat) : base ≠ base ++ toString (n + 2) := by
    intro h
    have hl := congrArg (fun s : String => s.toList.length) h
    simp at hl
  intro i j h
  cases i with
  | zero =>
      cases j with
      | zero => rfl
      | succ j => exact absurd h (hne j)
  | succ i =>
      cases j with
      | zero => exact absurd h.symm (hne i)
      | succ j =>
          have hl := congrArg String.toList h
          simp only [candidate, String.toList_append] at hl
          have hs := toString_injective (String.toList_inj.mp (List.append_cancel_left hl))
          omega

/-- Of more candidates than a list has members, one is not in the list. -/
theorem exists_candidate_not_mem (occupied : List String) (base : String) :
    ∃ i ≤ occupied.length, candidate base i ∉ occupied := by
  by_contra h
  push Not at h
  have hsub : (List.range (occupied.length + 1)).map (candidate base) ⊆ occupied := by
    intro name hname
    obtain ⟨i, hi, rfl⟩ := List.mem_map.mp hname
    exact h i (Nat.lt_succ_iff.mp (List.mem_range.mp hi))
  have hnodup : ((List.range (occupied.length + 1)).map (candidate base)).Nodup :=
    List.nodup_range.map (candidate_injective base)
  have hlen := (hnodup.subperm hsub).length_le
  rw [List.length_map, List.length_range] at hlen
  omega

/-- The search ends at the first free candidate, if there is one within its bound. -/
theorem firstFree_eq (occupied : String → Bool) (base : String) (fuel n : Nat)
    (h : ∃ i, n ≤ i ∧ i ≤ n + fuel ∧ occupied (candidate base i) = false) :
    ∃ i, n ≤ i ∧ firstFree occupied base fuel n = candidate base i ∧
      occupied (candidate base i) = false ∧
      ∀ j, n ≤ j → j < i → occupied (candidate base j) = true := by
  induction fuel generalizing n with
  | zero =>
      obtain ⟨i, hle, hge, hi⟩ := h
      have hin : i = n := by omega
      subst hin
      exact ⟨i, Nat.le_refl i, rfl, hi, fun j hj hlt => absurd hlt (by omega)⟩
  | succ fuel ih =>
      unfold firstFree
      by_cases hn : occupied (candidate base n) = true
      · obtain ⟨i, hle, hge, hi⟩ := h
        have hne : i ≠ n := by
          intro hin
          rw [hin, hn] at hi
          exact Bool.noConfusion hi
        obtain ⟨k, hk, he, hf, hall⟩ := ih (n + 1) ⟨i, by omega, by omega, hi⟩
        refine ⟨k, by omega, by rw [if_pos hn, he], hf, ?_⟩
        intro j hj hjk
        by_cases hjn : j = n
        · exact hjn ▸ hn
        · exact hall j (by omega) hjk
      · refine ⟨n, Nat.le_refl n, by rw [if_neg hn], by simpa using hn, ?_⟩
        intro j hj hlt
        omega

variable (names : Names) (raw : String)

/-- The new name for a raw one is the first candidate that is neither taken nor reserved. -/
theorem fresh_eq :
    ∃ i, names.fresh raw = candidate (safeName raw) i ∧
      names.isOccupied (candidate (safeName raw) i) = false ∧
      ∀ j < i, names.isOccupied (candidate (safeName raw) j) = true := by
  obtain ⟨i, hi, hfree⟩ :=
    exists_candidate_not_mem (names.taken ++ reservedWords) (safeName raw)
  rw [List.length_append] at hi
  have hfree' : names.isOccupied (candidate (safeName raw) i) = false := by
    simpa [isOccupied] using hfree
  obtain ⟨k, -, he, hf, hall⟩ := firstFree_eq names.isOccupied (safeName raw)
    (names.taken.length + reservedWords.length) 0 ⟨i, by omega, by omega, hfree'⟩
  exact ⟨k, he, hf, fun j hj => hall j (Nat.zero_le j) hj⟩

theorem isOccupied_fresh : names.isOccupied (names.fresh raw) = false := by
  obtain ⟨i, he, hf, -⟩ := names.fresh_eq raw
  rw [he, hf]

theorem fresh_not_mem_taken : names.fresh raw ∉ names.taken := by
  have h := names.isOccupied_fresh raw
  simp only [isOccupied, Bool.or_eq_false_iff] at h
  simpa using h.1

theorem fresh_not_mem_reservedWords : names.fresh raw ∉ reservedWords := by
  have h := names.isOccupied_fresh raw
  simp only [isOccupied, Bool.or_eq_false_iff] at h
  simpa using h.2

theorem isIdentifier_fresh : isIdentifier (names.fresh raw).toList = true := by
  obtain ⟨i, he, -⟩ := names.fresh_eq raw
  rw [he]
  exact isIdentifier_candidate (isIdentifier_safeName raw) i

end BlockScript.Names
