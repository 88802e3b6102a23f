/-! # Tables in insertion order

A table is a list of keyed entries. Writing a key that is present replaces its
entry in place; a new key goes to the end. -/

namespace BlockScript

/-- Keyed entries in the order in which their keys were first written. -/
abbrev Table (α : Type) := List (String × α)

namespace Table
variable {α : Type}

/-- The entry under a key. -/
def get? : Table α → String → Option α
  | [], _ => none
  | (k, v) :: rest, key => if k = key then some v else get? rest key

/-- Write an entry: in place if the key is present, else at the end. -/
def put : Table α → String → α → Table α
  | [], key, value => [(key, value)]
  | (k, v) :: rest, key, value =>
      if k = key then (k, value) :: rest else (k, v) :: put rest key value

/-- Write an entry unless the key is present. -/
def putNew (t : Table α) (key : String) (value : α) : Table α :=
  match t.get? key with
  | some _ => t
  | none => t ++ [(key, value)]

def keys (t : Table α) : List String := t.map (·.1)

def values (t : Table α) : List α := t.map (·.2)

/-- The table that a list of writes leaves. -/
def ofWrites (writes : List (String × α)) : Table α :=
  writes.foldl (fun t w => t.put w.1 w.2) []

@[simp] theorem get?_nil (key : String) : get? ([] : Table α) key = none := rfl

@[simp] theorem keys_nil : keys ([] : Table α) = [] := rfl

@[simp] theorem keys_cons (e : String × α) (t : Table α) :
    keys (e :: t) = e.1 :: keys t := rfl

@[simp] theorem get?_put_self (t : Table α) (key : String) (value : α) :
    get? (put t key value) key = some value := by
  induction t with
  | nil => simp [put, get?]
  | cons e rest ih =>
    by_cases h : e.1 = key <;> simp [put, get?, h, ih]

theorem get?_put_of_ne (t : Table α) {key other : String} (value : α) (h : key ≠ other) :
    get? (put t key value) other = get? t other := by
  induction t with
  | nil => simp [put, get?, h]
  | cons e rest ih =>
    by_cases he : e.1 = key
    · subst he; simp [put, get?, h]
    · simp [put, get?, he, ih]

theorem get?_eq_none_iff (t : Table α) (key : String) :
    get? t key = none ↔ key ∉ keys t := by
  induction t with
  | nil => simp
  | cons e rest ih =>
    by_cases h : e.1 = key
    · simp [get?, h]
    · simp [get?, h, ih, Ne.symm h]

theorem mem_of_get? {t : Table α} {key : String} {value : α} (h : t.get? key = some value) :
    (key, value) ∈ t := by
  induction t with
  | nil => simp at h
  | cons e rest ih =>
      unfold get? at h
      split at h
      · next hk =>
          obtain rfl := Option.some.inj h
          exact hk ▸ List.mem_cons_self
      · exact List.mem_cons_of_mem _ (ih h)

/-- Writing a key keeps the order of the keys and adds at most that key, at the end. -/
theorem keys_put (t : Table α) (key : String) (value : α) :
    keys (put t key value) = if key ∈ keys t then keys t else keys t ++ [key] := by
  induction t with
  | nil => simp [put]
  | cons e rest ih =>
    by_cases h : e.1 = key
    · simp [put, h]
    · simp only [put, h, ↓reduceIte, keys_cons, ih, List.mem_cons, Ne.symm h, false_or]
      split <;> simp

end Table

end BlockScript
