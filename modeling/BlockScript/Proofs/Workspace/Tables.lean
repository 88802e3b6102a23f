import Mathlib.Data.List.Forall2
import Mathlib.Data.List.Nodup
import Mathlib.Data.String.Basic
import BlockScript.Workspace.OfJson

/-! # Tables without repeated keys

Where no key comes twice, the order of the entries does not matter for look-ups, writing keeps all
entries, and sorting by the keys moves them only. -/

namespace BlockScript

namespace Table
variable {α β : Type}

@[simp] theorem keys_append (t t' : Table α) : keys (t ++ t') = keys t ++ keys t' :=
  List.map_append

@[simp] theorem keys_map (f : α → β) (t : Table α) :
    keys (t.map fun e => (e.1, f e.2)) = keys t := by
  simp [keys, Function.comp_def]

theorem mem_keys_of_mem {t : Table α} {key : String} {value : α} (h : (key, value) ∈ t) :
    key ∈ keys t :=
  List.mem_map_of_mem h

/-- An entry that is there is found, if its key is there once. -/
theorem get?_of_mem {t : Table α} (distinct : (keys t).Nodup) {key : String} {value : α}
    (h : (key, value) ∈ t) : t.get? key = some value := by
  induction t with
  | nil => simp at h
  | cons e rest ih =>
      rw [keys_cons, List.nodup_cons] at distinct
      rcases List.mem_cons.mp h with rfl | h
      · exact if_pos rfl
      · have other : e.1 ≠ key := fun same => distinct.1 (same ▸ mem_keys_of_mem h)
        rw [get?, if_neg other]
        exact ih distinct.2 h

/-- A look-up does not depend on the order of the entries. -/
theorem get?_eq_of_perm {t t' : Table α} (perm : t.Perm t') (distinct : (keys t).Nodup)
    (key : String) : t.get? key = t'.get? key := by
  have distinct' : (keys t').Nodup := (perm.map Prod.fst).nodup_iff.mp distinct
  ext value
  exact ⟨fun h => get?_of_mem distinct' (perm.mem_iff.mp (mem_of_get? h)),
    fun h => get?_of_mem distinct (perm.mem_iff.mpr (mem_of_get? h))⟩

theorem get?_reverse {t : Table α} (distinct : (keys t).Nodup) (key : String) :
    get? t.reverse key = t.get? key :=
  (get?_eq_of_perm (List.reverse_perm t).symm distinct key).symm

theorem get?_map (f : α → β) (t : Table α) (key : String) :
    get? (t.map fun e => (e.1, f e.2)) key = (t.get? key).map f := by
  induction t with
  | nil => rfl
  | cons e rest ih =>
      simp only [List.map_cons, get?]
      split
      · rfl
      · exact ih

/-- A key that comes once does not stand in front of its entry. -/
theorem not_mem_keys_of_nodup {front back : Table α} {e : String × α}
    (distinct : (keys (front ++ e :: back)).Nodup) : e.1 ∉ keys front := by
  rw [keys_append, List.nodup_append] at distinct
  exact fun h => distinct.2.2 _ h _ List.mem_cons_self rfl

/-! Writing. -/

theorem put_of_not_mem {t : Table α} {key : String} (h : key ∉ keys t) (value : α) :
    t.put key value = t ++ [(key, value)] := by
  induction t with
  | nil => rfl
  | cons e rest ih =>
      rw [keys_cons, List.mem_cons, not_or] at h
      rw [put, if_neg (Ne.symm h.1), ih h.2]
      rfl

theorem foldl_put {t writes : Table α} (distinct : (keys (t ++ writes)).Nodup) :
    writes.foldl (fun t w => t.put w.1 w.2) t = t ++ writes := by
  induction writes generalizing t with
  | nil => exact (List.append_nil t).symm
  | cons w rest ih =>
      have split : t ++ w :: rest = t ++ [w] ++ rest := by simp
      have new := not_mem_keys_of_nodup distinct
      rw [List.foldl_cons, put_of_not_mem new, split]
      exact ih (split ▸ distinct)

/-- Writes to different keys leave a table of just these entries. -/
theorem ofWrites_eq_self {writes : Table α} (distinct : (keys writes).Nodup) :
    ofWrites writes = writes :=
  foldl_put distinct

/-! Entries of which some are left out. -/

/-- The entries that have a value. -/
def present (entries : Table (Option α)) : Table α :=
  entries.filterMap fun e => e.2.map fun value => (e.1, value)

theorem keys_present_sublist (entries : Table (Option α)) :
    (keys (present entries)).Sublist (keys entries) := by
  induction entries with
  | nil => exact .slnil
  | cons e rest ih =>
      obtain ⟨key, _ | value⟩ := e
      · exact ih.cons key
      · exact ih.cons_cons key

theorem get?_present {entries : Table (Option α)} (distinct : (keys entries).Nodup)
    (key : String) : get? (present entries) key = (entries.get? key).join := by
  induction entries with
  | nil => rfl
  | cons e rest ih =>
      obtain ⟨k, value⟩ := e
      rw [keys_cons, List.nodup_cons] at distinct
      cases value with
      | none =>
          change get? (present rest) key = _
          rw [ih distinct.2, get?]
          split
          · next same =>
              -- The key stands nowhere else.
              have missing : get? rest key = none :=
                (get?_eq_none_iff rest key).mpr (same ▸ distinct.1)
              rw [missing]
              rfl
          · rfl
      | some value =>
          change get? ((k, value) :: present rest) key = _
          rw [get?, get?, ih distinct.2]
          split <;> rfl

/-! Sorting by the keys. -/

/-- Insert an entry by its key; the later of two of one key stays. -/
def insertKey (key : String) (value : α) : Table α → Table α
  | [] => [(key, value)]
  | (k, v) :: rest =>
      if key < k then (key, value) :: (k, v) :: rest
      else if k < key then (k, v) :: insertKey key value rest
      else (k, value) :: rest

theorem insertKey_perm {t : Table α} {key : String} (h : key ∉ keys t) (value : α) :
    (insertKey key value t).Perm ((key, value) :: t) := by
  induction t with
  | nil => exact .refl _
  | cons e rest ih =>
      rw [keys_cons, List.mem_cons, not_or] at h
      rw [insertKey]
      split
      · exact .refl _
      · next later =>
          rw [if_pos ((not_lt.mp later).lt_of_ne (Ne.symm h.1))]
          exact ((ih h.2).cons e).trans (.swap (key, value) e rest)

/-- The entries in order of their keys. -/
def sortByKey (t : Table α) : Table α := t.foldl (fun sorted e => insertKey e.1 e.2 sorted) []

theorem foldl_insertKey_perm {t writes : Table α} (distinct : (keys (t ++ writes)).Nodup) :
    (writes.foldl (fun t w => insertKey w.1 w.2 t) t).Perm (t ++ writes) := by
  induction writes generalizing t with
  | nil => rw [List.append_nil, List.foldl_nil]
  | cons w rest ih =>
      have middle : (t ++ w :: rest).Perm (w :: t ++ rest) := List.perm_middle
      have new := not_mem_keys_of_nodup distinct
      have inserted := (insertKey_perm new w.2).append_right rest
      have whole := inserted.trans middle.symm
      rw [List.foldl_cons]
      exact (ih ((whole.map Prod.fst).nodup_iff.mpr distinct)).trans whole

theorem sortByKey_perm {t : Table α} (distinct : (keys t).Nodup) : (sortByKey t).Perm t :=
  foldl_insertKey_perm (t := []) distinct

theorem nodup_keys_sortByKey {t : Table α} (distinct : (keys t).Nodup) :
    (keys (sortByKey t)).Nodup :=
  ((sortByKey_perm distinct).map Prod.fst).nodup_iff.mpr distinct

theorem insertKey_map (f : α → β) (key : String) (value : α) (t : Table α) :
    insertKey key (f value) (t.map fun e => (e.1, f e.2)) =
      (insertKey key value t).map fun e => (e.1, f e.2) := by
  induction t with
  | nil => rfl
  | cons e rest ih =>
      simp only [List.map_cons, insertKey, ih]
      split_ifs <;> rfl

/-- Only the keys matter for the order. -/
theorem sortByKey_map (f : α → β) (t : Table α) :
    sortByKey (t.map fun e => (e.1, f e.2)) = (sortByKey t).map fun e => (e.1, f e.2) := by
  have folded (sorted : Table α) :
      (t.map fun e => (e.1, f e.2)).foldl (fun sorted e => insertKey e.1 e.2 sorted)
        (sorted.map fun e => (e.1, f e.2)) =
      (t.foldl (fun sorted e => insertKey e.1 e.2 sorted) sorted).map fun e => (e.1, f e.2) := by
    induction t generalizing sorted with
    | nil => rfl
    | cons e rest ih =>
        simp only [List.map_cons, List.foldl_cons, insertKey_map]
        exact ih _
  exact folded []

end Table

open Table

namespace Json

theorem insertMember_eq (name : String) (value : Value) (members : List (String × Value)) :
    insertMember name value members = insertKey name value members := by
  induction members with
  | nil => rfl
  | cons e rest ih => simp only [insertMember, insertKey, ih]

theorem Value.sortedMembers_eq (members : List (String × Value)) :
    sortedMembers members = sortByKey members := by
  simp only [sortedMembers, insertMember_eq, sortByKey]

end Json

namespace Workspace

theorem OfJson.insertInput_eq (name : String) (step : Option (Loading Block))
    (inputs : List (String × Option (Loading Block))) :
    sortedInputs.insertInput name step inputs = insertKey name step inputs := by
  induction inputs with
  | nil => rfl
  | cons e rest ih => simp only [sortedInputs.insertInput, insertKey, ih]

theorem OfJson.sortedInputs_eq (members : List (String × View)) :
    sortedInputs members = sortByKey (members.map fun m => (m.1, m.2.connected)) := by
  simp only [sortedInputs, insertInput_eq, sortByKey, List.foldl_map]

theorem OfXml.insertSorted_perm (e : String × String) (t : Table String) :
    (insertSorted e t).Perm (e :: t) := by
  induction t with
  | nil => exact .refl _
  | cons other rest ih =>
      rw [insertSorted]
      split
      · exact .refl _
      · exact (ih.cons other).trans (.swap e other rest)

theorem OfXml.pairwise_insertSorted {e : String × String} {t : Table String}
    (h : t.Pairwise fun a b => a.1 ≤ b.1) : (insertSorted e t).Pairwise fun a b => a.1 ≤ b.1 := by
  induction t with
  | nil => exact List.pairwise_singleton _ e
  | cons other rest ih =>
      have others := List.pairwise_cons.mp h
      rw [insertSorted]
      split
      · next first =>
          refine List.pairwise_cons.mpr ⟨fun c hc => ?_, h⟩
          rcases List.mem_cons.mp hc with rfl | hc
          · exact first.le
          · exact first.le.trans (others.1 c hc)
      · next later =>
          refine List.pairwise_cons.mpr ⟨fun c hc => ?_, ih others.2⟩
          rcases List.mem_cons.mp ((insertSorted_perm e rest).mem_iff.mp hc) with rfl | hc
          · exact not_lt.mp later
          · exact others.1 c hc

/-- Sorting entries whose keys differ gives the one order in which the keys increase. -/
theorem OfXml.foldr_insertSorted_eq {t sorted : Table String} (perm : t.Perm sorted)
    (increasing : sorted.Pairwise fun a b => a.1 < b.1) : t.foldr insertSorted [] = sorted := by
  have moved : (t.foldr insertSorted []).Perm t := by
    clear perm
    induction t with
    | nil => exact .refl _
    | cons e rest ih => exact (insertSorted_perm e _).trans (ih.cons e)
  have ordered : (t.foldr insertSorted []).Pairwise fun a b => a.1 ≤ b.1 := by
    clear perm moved
    induction t with
    | nil => exact .nil
    | cons e rest ih => exact pairwise_insertSorted ih
  have distinct : (sorted.map Prod.fst).Nodup :=
    List.pairwise_map.mpr (increasing.imp fun h => h.ne)
  refine List.Perm.eq_of_pairwise (fun a b ha hb hab hba => ?_) ordered
    (increasing.imp fun h => h.le) (moved.trans perm)
  exact List.inj_on_of_nodup_map distinct ((moved.trans perm).mem_iff.mp ha) hb
    (le_antisymm hab hba)

end Workspace

end BlockScript
