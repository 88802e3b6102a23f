import Mathlib.Data.List.Induction
import BlockScript.Generator
import BlockScript.Proofs.Names.Coherence

/-! # First come, first served

Before blocks are rendered, only variables and procedures have names. Variables come in the order in
which blocks name them first. Each name is spelled as the user spelled it, as far as an identifier
can be, unless that is reserved or another one has it. -/

namespace BlockScript

open Names (safeName candidate)

/-! The list of the variables. -/

/-- Does a block read or write the variable that its `VAR` field names? -/
def Node.usesVariable (n : Node) : Bool :=
  (Kind.ofTypeName? n.kindName).any Kind.usesVariableField

/-- The raw name of the variable that a block names. -/
def Node.namedVariable (n : Node) : Option String :=
  if n.usesVariable then n.field "VAR" else none

theorem Node.field_of_namedVariable {n : Node} {raw : String} (h : n.namedVariable = some raw) :
    n.field "VAR" = some raw := by
  unfold namedVariable at h
  split at h
  · exact h
  · contradiction

theorem eraseDups_concat {α : Type} [DecidableEq α] (xs : List α) (x : α) :
    (xs ++ [x]).eraseDups = if x ∈ xs then xs.eraseDups else xs.eraseDups ++ [x] := by
  rw [List.eraseDups_append]
  split <;> simp_all [List.removeAll, List.eraseDups_cons]

theorem nodup_eraseDups {α : Type} [DecidableEq α] (xs : List α) : xs.eraseDups.Nodup := by
  induction xs using List.reverseRecOn with
  | nil => exact List.nodup_nil
  | append_singleton xs x ih =>
      rw [eraseDups_concat]
      split
      · exact ih
      · next fresh =>
          have fresh : x ∉ xs.eraseDups := fun mem => fresh (List.mem_eraseDups.mp mem)
          exact List.nodup_append_comm.mpr (List.nodup_cons.mpr ⟨fresh, ih⟩)

/-- Each variable is listed once, where it is named first. -/
theorem variableNames_eq (nodes : List Node) :
    variableNames nodes = (nodes.filterMap Node.namedVariable).eraseDups := by
  induction nodes using List.reverseRecOn with
  | nil => rfl
  | append_singleton nodes n ih =>
      have step : variableNames (nodes ++ [n]) =
          n.namedVariable.elim (variableNames nodes) fun raw =>
            if raw ∈ variableNames nodes then variableNames nodes
            else variableNames nodes ++ [raw] := by
        rw [variableNames, List.foldl_concat, ← variableNames]
        cases hk : Kind.ofTypeName? n.kindName with
        | none => simp [Node.namedVariable, Node.usesVariable, hk]
        | some kind =>
            cases hf : n.field "VAR" with
            | none => simp [Node.namedVariable, hf]
            | some raw =>
                cases hu : kind.usesVariableField <;>
                  simp [Node.namedVariable, Node.usesVariable, hk, hu, hf, ite_not]
      rw [step, List.filterMap_append]
      cases hv : n.namedVariable with
      | none => simp [hv, ih]
      | some raw => simp [hv, ih, eraseDups_concat]

theorem mem_variableNames {nodes : List Node} {raw : String} :
    raw ∈ variableNames nodes ↔ ∃ n ∈ nodes, n.namedVariable = some raw := by
  rw [variableNames_eq, List.mem_eraseDups, List.mem_filterMap]

/-! The names that they are given. -/

/-- A spelling that is neither reserved nor taken is given out as it is. -/
theorem Names.fresh_eq_safeName (names : Names) {raw : String}
    (unreserved : safeName raw ∉ reservedWords) (untaken : safeName raw ∉ names.taken) :
    names.fresh raw = safeName raw := by
  obtain ⟨i, given, -, occupied⟩ := names.fresh_eq raw
  cases i with
  | zero => exact given
  | succ n =>
      have first := occupied 0 n.succ_pos
      simp only [candidate, isOccupied, Bool.or_eq_true, List.contains_iff_mem] at first
      exact first.elim (absurd · untaken) (absurd · unreserved)

namespace Ledger
variable {indent : String} {ledger after : Ledger} {category : NameCategory} {raw given : String}

/-- A request for a name forgets no name. -/
theorem lookup_getName_of_some (known : ledger.names.lookup category raw = some given)
    (other : NameCategory) (raw' : String) :
    (ledger.getName other raw').2.names.lookup category raw = some given := by
  rcases getName_cases ledger other raw' with ⟨_, -, heq⟩ | ⟨missing, heq⟩
  · rw [heq]
    exact known
  · rw [heq, Names.lookup_cons, if_neg]
    · exact known
    · rintro ⟨rfl, rfl⟩
      rw [missing] at known
      exact nomatch known

theorem Step.keeps_lookup {e : Event} (h : Step indent ledger e after)
    (known : ledger.names.lookup category raw = some given) :
    after.names.lookup category raw = some given := by
  cases h with
  | name other raw' => exact lookup_getName_of_some known other raw'
  | helper h =>
      rcases provide_cases ledger h indent with ⟨_, -, heq⟩ | ⟨-, after, heq, names, -⟩
      · rwa [heq]
      · rw [heq, names]
        exact known
  | temporary | require | declare | define | clearWidgets | addWidget => exact known

/-- Every name that is taken is that of a variable or procedure, and a variable or procedure that is
not spelled as the user spelled it came after another, or would have a reserved word for a name. -/
structure Settled (ledger : Ledger) : Prop where
  owned : ∀ {name}, name ∈ ledger.names.taken →
    ∃ category raw, ledger.names.lookup category raw = some name
  spelled : ∀ {category raw given}, ledger.names.lookup category raw = some given →
    given = safeName raw ∨ safeName raw ∈ reservedWords ∨
      ∃ other raw', ledger.names.lookup other raw' = some (safeName raw) ∧
        ¬ (other = category ∧ raw' = raw)

theorem Settled.empty : Settled {} := by
  constructor
  · intro name taken
    exact absurd taken List.not_mem_nil
  · intro category raw given known
    simp at known

theorem Settled.getName (settled : Settled ledger) (category : NameCategory) (raw : String) :
    Settled (ledger.getName category raw).2 := by
  have kept {other : NameCategory} {raw' given : String}
      (known : ledger.names.lookup other raw' = some given) :
      (ledger.getName category raw).2.names.lookup other raw' = some given :=
    lookup_getName_of_some known category raw
  rcases getName_cases ledger category raw with ⟨_, -, heq⟩ | ⟨missing, heq⟩
  · rw [heq]
    exact settled
  · have new : (ledger.getName category raw).2.names.lookup category raw =
        some (ledger.names.fresh raw) := by
      rw [heq, Names.lookup_cons, if_pos ⟨rfl, rfl⟩]
    constructor
    · intro name taken
      rw [heq] at taken
      rcases List.mem_cons.mp taken with rfl | taken
      · exact ⟨category, raw, new⟩
      · obtain ⟨other, raw', known⟩ := settled.owned taken
        exact ⟨other, raw', kept known⟩
    · intro other raw' given known
      rw [heq, Names.lookup_cons] at known
      split at known
      · next same =>
          obtain ⟨rfl, rfl⟩ := same
          obtain rfl := Option.some.inj known
          by_cases reserved : safeName raw ∈ reservedWords
          · exact .inr (.inl reserved)
          · by_cases taken : safeName raw ∈ ledger.names.taken
            · obtain ⟨earlier, raw', known'⟩ := settled.owned taken
              refine .inr (.inr ⟨earlier, raw', kept known', ?_⟩)
              rintro ⟨rfl, rfl⟩
              rw [missing] at known'
              exact nomatch known'
            · exact .inl (ledger.names.fresh_eq_safeName reserved taken)
      · rcases settled.spelled known with own | reserved | ⟨earlier, raw'', known', differs⟩
        · exact .inl own
        · exact .inr (.inl reserved)
        · exact .inr (.inr ⟨earlier, raw'', kept known', differs⟩)

theorem Settled.getNames (settled : Settled ledger) (category : NameCategory)
    (raws : List String) : Settled (ledger.getNames category raws).2 := by
  induction raws generalizing ledger with
  | nil => exact settled
  | cons raw rest ih => exact ih (settled.getName category raw)

theorem Settled.of_names (settled : Settled ledger) (names : after.names = ledger.names) :
    Settled after := by
  constructor
  · intro name taken
    rw [names] at taken ⊢
    exact settled.owned taken
  · intro category raw given known
    rw [names] at known ⊢
    exact settled.spelled known

/-- The declaration of the variables gives out no names. -/
theorem names_declareNames (nodes : List Node) :
    (declareNames {} nodes).names =
      ((getNames {} .variableName (variableNames nodes)).2.getNames .procedureName
        (definedNames nodes)).2.names := by
  let first := getNames {} .variableName (variableNames nodes)
  let second := first.2.getNames .procedureName (definedNames nodes)
  change Ledger.names (if first.1.isEmpty then second.2 else second.2.addDefinition _ _) = _
  split <;> rfl

theorem settled_declareNames (nodes : List Node) : Settled (declareNames {} nodes) := by
  have settled := (Settled.empty.getNames .variableName (variableNames nodes)).getNames
    .procedureName (definedNames nodes)
  exact settled.of_names (names_declareNames nodes)

theorem lookup_getNames_of_some (known : ledger.names.lookup category raw = some given)
    (other : NameCategory) (raws : List String) :
    (ledger.getNames other raws).2.names.lookup category raw = some given := by
  induction raws generalizing ledger with
  | nil => exact known
  | cons first rest ih => exact ih (lookup_getName_of_some known other first)

/-- Names that are given out in a row are known afterwards. -/
theorem exists_lookup_getNames {raws : List String} (mem : raw ∈ raws) (ledger : Ledger) :
    ∃ given, (ledger.getNames category raws).2.names.lookup category raw = some given := by
  induction raws generalizing ledger with
  | nil => exact absurd mem List.not_mem_nil
  | cons first rest ih =>
      rcases List.mem_cons.mp mem with rfl | mem
      · have known : (ledger.getName category raw).2.names.lookup category raw = some _ :=
          Names.lookup_get ledger.names category raw
        exact ⟨_, lookup_getNames_of_some known category rest⟩
      · exact ih mem _

/-- The name of a procedure that is defined somewhere is known before blocks are rendered. -/
theorem exists_lookup_declareNames {nodes : List Node} {n : Node} {kind : Kind} (hn : n ∈ nodes)
    (known : Kind.ofTypeName? n.kindName = some kind)
    (definition : kind.isProcedureDefinition = true) (named : n.field "NAME" = some raw) :
    ∃ given, (declareNames {} nodes).names.lookup .procedureName raw = some given := by
  have mem : raw ∈ definedNames nodes := by
    refine List.mem_filterMap.mpr ⟨n, hn, ?_⟩
    simp [known, definition, named]
  obtain ⟨given, found⟩ := exists_lookup_getNames mem
    (getNames {} .variableName (variableNames nodes)).2
  exact ⟨given, names_declareNames nodes ▸ found⟩

/-- A name that is known before blocks are rendered is spelled as the user spelled it exactly if that
is not reserved and nothing else has it in the end. -/
theorem eq_safeName_iff {events later : List Event} {start : Ledger} (settled : Settled start)
    (steps : Steps indent start later after) (coherent : Coherent events after)
    (known : start.names.lookup category raw = some given) :
    given = safeName raw ↔ safeName raw ∉ reservedWords ∧
      ∀ other raw', after.names.lookup other raw' = some (safeName raw) →
        other = category ∧ raw' = raw := by
  have kept {other : NameCategory} {raw' name : String}
      (known : start.names.lookup other raw' = some name) :
      after.names.lookup other raw' = some name :=
    steps.keeps (fun step holds => step.keeps_lookup holds) known
  constructor
  · rintro rfl
    refine ⟨coherent.unreserved (.entry (kept known)), fun other raw' known' => ?_⟩
    obtain ⟨rfl, rfl⟩ := Owner.entry.inj (coherent.unique (.entry known') (.entry (kept known)))
    exact ⟨rfl, rfl⟩
  · rintro ⟨unreserved, alone⟩
    rcases settled.spelled known with own | reserved | ⟨other, raw', known', differs⟩
    · exact own
    · exact absurd reserved unreserved
    · exact absurd (alone other raw' (kept known')) differs

end Ledger

end BlockScript
