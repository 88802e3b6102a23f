import Mathlib.Data.List.DropRight
import BlockScript.Proofs.Names.Allocator
import BlockScript.Proofs.Generator.Defined

/-! # The registry of definitions

Imports and added definitions give way to what is there, a definition that is set overwrites, and a
helper is defined at the first request for it. A reset forgets all three, but not the names, which
are shared with the rest of the script. What the registry holds is told here by the operations since
the last reset. -/

namespace BlockScript

namespace Table
variable {α : Type}

theorem keys_putNew (t : Table α) (key : String) (value : α) :
    keys (t.putNew key value) = if key ∈ keys t then keys t else keys t ++ [key] := by
  unfold putNew
  split
  · next found => rw [if_pos (mem_keys_of_mem (mem_of_get? found))]
  · next missing =>
      rw [if_neg ((get?_eq_none_iff t key).mp missing), keys_append]
      rfl

theorem get?_putNew_self (t : Table α) (key : String) (value : α) :
    (t.putNew key value).get? key = some ((t.get? key).getD value) := by
  cases h : t.get? key with
  | some old => exact get?_putNew_of_some h key value
  | none =>
      have fresh := (get?_eq_none_iff t key).mp h
      rw [putNew, h, ← put_of_not_mem fresh, get?_put_self]
      rfl

end Table

namespace Definitions

/-- What can be done to the definitions, and to the names behind their back. -/
inductive Operation where
  | addImport (key code : String)
  | addDefinition (key code : String)
  | setDefinition (key code : String)
  | provide (key : String) (template : List String) (indent : String)
  | reset
  | name (call : Names.Call)
deriving DecidableEq, Repr

namespace Operation

def importKey? : Operation → Option String
  | .addImport key _ => some key
  | _ => none

/-- The key of the definition that is asked for, under which there is one afterwards. -/
def definedKey? : Operation → Option String
  | .addDefinition key _ => some key
  | .setDefinition key _ => some key
  | .provide key _ _ => some key
  | _ => none

def helperKey? : Operation → Option String
  | .provide key _ _ => some key
  | _ => none

/-- The code that is given for an import. -/
def importCode? (key : String) : Operation → Option String
  | .addImport own code => if own = key then some code else none
  | _ => none

end Operation

/-- The definitions with the names that helpers draw theirs from. -/
structure Registry where
  names : Names
  definitions : Definitions := {}
deriving DecidableEq, Repr

namespace Registry

def serve (registry : Registry) : Operation → Registry
  | .addImport key code =>
      { registry with definitions := registry.definitions.addImport key code }
  | .addDefinition key code =>
      { registry with definitions := registry.definitions.addDefinition key code }
  | .setDefinition key code =>
      { registry with definitions := registry.definitions.setDefinition key code }
  | .provide key template indent =>
      let provided := registry.definitions.provide registry.names key template indent
      { names := provided.2.1, definitions := provided.2.2 }
  | .reset => { registry with definitions := registry.definitions.reset }
  | .name call => { registry with names := (call.serve registry.names).2 }

/-- The name that a request for a helper is answered with. -/
def answer (registry : Registry) (key : String) (template : List String) (indent : String) :
    String :=
  (registry.definitions.provide registry.names key template indent).1

/-- The registry after operations in a row. Others may have drawn names before it was made. -/
def run (names : Names) (operations : List Operation) : Registry :=
  operations.foldl serve { names }

theorem run_concat (names : Names) (operations : List Operation) (operation : Operation) :
    run names (operations ++ [operation]) = (run names operations).serve operation :=
  List.foldl_concat ..

/-- What a request for a helper can do: repeat the name that it has, or give it a fresh one. -/
theorem provide_cases (registry : Registry) (key : String) (template : List String)
    (indent : String) :
    (registry.definitions.helperNames.get? key = some (registry.answer key template indent) ∧
      registry.serve (.provide key template indent) = registry) ∨
    (registry.definitions.helperNames.get? key = none ∧
      registry.answer key template indent = registry.names.fresh key ∧
      registry.serve (.provide key template indent) =
        { names := (registry.names.distinct key).2
          definitions :=
            { registry.definitions with
              helperNames := registry.definitions.helperNames.put key (registry.names.fresh key)
              definitions := registry.definitions.definitions.put key
                (helperCode template indent (registry.names.fresh key)) } }) := by
  cases h : registry.definitions.helperNames.get? key with
  | some name => simp [answer, serve, provide, h]
  | none => simp [answer, serve, provide, h, Names.distinct]

end Registry

/-! What there is under which keys. -/

/-- The operations since the last reset. -/
def recent (operations : List Operation) : List Operation :=
  operations.rtakeWhile (· ≠ .reset)

theorem recent_concat (operations : List Operation) (operation : Operation) :
    recent (operations ++ [operation]) =
      if operation = .reset then [] else recent operations ++ [operation] := by
  rw [recent, List.rtakeWhile_concat]
  by_cases h : operation = .reset <;> simp [h, recent]

variable (names : Names) (operations : List Operation)

/-- Where each operation puts at most one key behind those that are there, the keys come in the order
in which they came up since the last reset. -/
theorem keys_eq_eraseDups {α : Type} (table : Definitions → Table α)
    (key? : Operation → Option String) (initial : table {} = [])
    (reset : ∀ definitions : Definitions, table definitions.reset = [])
    (step : ∀ (registry : Registry) (operation : Operation),
      (∃ before, registry = .run names before) → operation ≠ .reset →
      (table (registry.serve operation).definitions).keys =
        (key? operation).elim (table registry.definitions).keys fun key =>
          if key ∈ (table registry.definitions).keys then (table registry.definitions).keys
          else (table registry.definitions).keys ++ [key]) :
    (table (Registry.run names operations).definitions).keys =
      ((recent operations).filterMap key?).eraseDups := by
  induction operations using List.reverseRecOn with
  | nil => exact congrArg Table.keys initial
  | append_singleton operations operation ih =>
      rw [Registry.run_concat, recent_concat]
      split
      · next h =>
          rw [h, Registry.serve, reset]
          rfl
      · next h =>
          rw [step _ _ ⟨operations, rfl⟩ h, ih, List.filterMap_append]
          cases key : key? operation with
          | none => simp [key]
          | some key => simp [key, eraseDups_concat]

namespace Registry

theorem keys_imports : (run names operations).definitions.imports.keys =
    ((recent operations).filterMap Operation.importKey?).eraseDups := by
  refine keys_eq_eraseDups names operations imports Operation.importKey? rfl (fun _ => rfl) ?_
  intro registry operation _ _
  cases operation with
  | addImport key code => exact Table.keys_putNew ..
  | provide key template indent =>
      rcases registry.provide_cases key template indent with ⟨-, same⟩ | ⟨-, -, new⟩
      · rw [same]
        rfl
      · rw [new]
        rfl
  | addDefinition | setDefinition | name => rfl
  | reset => contradiction

theorem keys_helperNames : (run names operations).definitions.helperNames.keys =
    ((recent operations).filterMap Operation.helperKey?).eraseDups := by
  refine keys_eq_eraseDups names operations helperNames Operation.helperKey? rfl (fun _ => rfl) ?_
  intro registry operation _ _
  cases operation with
  | provide key template indent =>
      rcases registry.provide_cases key template indent with ⟨known, same⟩ | ⟨-, -, new⟩
      · rw [same]
        exact (if_pos (Table.mem_keys_of_mem (Table.mem_of_get? known))).symm
      · rw [new]
        exact Table.keys_put ..
  | addImport | addDefinition | setDefinition | name => rfl
  | reset => contradiction

/-- A helper whose name is known is defined. -/
theorem mem_keys_definitions {key name : String}
    (known : (run names operations).definitions.helperNames.get? key = some name) :
    key ∈ (run names operations).definitions.definitions.keys := by
  induction operations using List.reverseRecOn generalizing name with
  | nil => simp [run] at known
  | append_singleton operations operation ih =>
      rw [run_concat] at known ⊢
      cases operation with
      | provide own template indent =>
          rcases (run names operations).provide_cases own template indent with
            ⟨-, same⟩ | ⟨-, -, new⟩
          · rw [same] at known ⊢
            exact ih known
          · rw [new] at known ⊢
            by_cases h : own = key
            · exact h ▸ Table.mem_keys_put_self ..
            · rw [Table.get?_put_of_ne _ _ h] at known
              exact Table.mem_keys_put (ih known) _ _
      | addDefinition own code => exact Table.mem_keys_putNew (ih known) _ _
      | setDefinition own code => exact Table.mem_keys_put (ih known) _ _
      | addImport | name => exact ih known
      | reset => simp [serve, Definitions.reset] at known

theorem keys_definitions : (run names operations).definitions.definitions.keys =
    ((recent operations).filterMap Operation.definedKey?).eraseDups := by
  refine keys_eq_eraseDups names operations Definitions.definitions Operation.definedKey? rfl (fun _ => rfl) ?_
  rintro _ operation ⟨before, rfl⟩ _
  cases operation with
  | provide key template indent =>
      rcases (run names before).provide_cases key template indent with ⟨known, same⟩ | ⟨-, -, new⟩
      · rw [same]
        exact (if_pos (mem_keys_definitions names before known)).symm
      · rw [new]
        exact Table.keys_put ..
  | addDefinition key code => exact Table.keys_putNew ..
  | setDefinition key code => exact Table.keys_put ..
  | addImport | name => rfl
  | reset => contradiction

end Registry

/-! What is defined. -/

/-- What an operation that comes after others writes under a key. -/
inductive Writes (past : List Operation) (key : String) : Operation → String → Prop where
  | set (code : String) : Writes past key (.setDefinition key code) code
  | provide (template : List String) (indent : String)
      (first : ∀ operation ∈ recent past, operation.helperKey? ≠ some key) :
      Writes past key (.provide key template indent)
        (helperCode template indent ((Registry.run names past).answer key template indent))
  | add (code : String) (missing : ∀ operation ∈ recent past, operation.definedKey? ≠ some key) :
      Writes past key (.addDefinition key code) code

/-- The code that was written under a key last, and after the last reset. -/
def IsLatest (key code : String) : Prop :=
  ∃ past operation later, operations = past ++ operation :: later ∧
    Writes names past key operation code ∧
    ∀ between next rest, later = between ++ next :: rest → next ≠ .reset ∧
      ∀ other, ¬ Writes names (past ++ operation :: between) key next other

theorem isLatest_concat (operation : Operation) (key code : String) :
    IsLatest names (operations ++ [operation]) key code ↔
      Writes names operations key operation code ∨
        IsLatest names operations key code ∧ operation ≠ .reset ∧
          ∀ other, ¬ Writes names operations key operation other := by
  constructor
  · rintro ⟨past, written, later, split, writes, last⟩
    cases later using List.reverseRecOn with
    | nil =>
        obtain ⟨rfl, same⟩ := List.append_inj' split rfl
        obtain rfl := List.singleton_inj.mp same
        exact .inl writes
    | append_singleton later next =>
        rw [← List.cons_append, ← List.append_assoc] at split
        obtain ⟨rfl, same⟩ := List.append_inj' split rfl
        obtain rfl := List.singleton_inj.mp same
        refine .inr ⟨⟨past, written, later, rfl, writes, ?_⟩, last later _ [] rfl⟩
        intro between next rest cut
        exact last between next (rest ++ [_]) (by rw [cut, List.append_assoc, List.cons_append])
  · rintro (writes | ⟨⟨past, written, later, rfl, writes, last⟩, quiet⟩)
    · refine ⟨operations, operation, [], rfl, writes, ?_⟩
      intro between next rest cut
      simp at cut
    · refine ⟨past, written, later ++ [operation], by simp, writes, ?_⟩
      intro between next rest cut
      cases rest using List.reverseRecOn with
      | nil =>
          obtain ⟨rfl, same⟩ := List.append_inj' cut rfl
          obtain rfl := List.singleton_inj.mp same
          exact quiet
      | append_singleton rest _ =>
          rw [← List.cons_append, ← List.append_assoc] at cut
          exact last between next rest (List.append_inj' cut rfl).1

namespace Registry

theorem get?_imports (key : String) : (run names operations).definitions.imports.get? key =
    (recent operations).findSome? (Operation.importCode? key) := by
  induction operations using List.reverseRecOn with
  | nil => rfl
  | append_singleton operations operation ih =>
      rw [run_concat, recent_concat]
      split
      · next h =>
          rw [h]
          rfl
      · next h =>
          rw [List.findSome?_append, ← ih]
          cases operation with
          | addImport own code =>
              by_cases same : own = key
              · subst same
                simp only [serve, addImport, Table.get?_putNew_self]
                cases (run names operations).definitions.imports.get? own <;>
                  simp [Operation.importCode?]
              · simp [serve, addImport, Table.get?_putNew_of_ne _ _ same, Operation.importCode?,
                  same]
          | provide own template indent =>
              rcases (run names operations).provide_cases own template indent with
                ⟨-, same⟩ | ⟨-, -, new⟩
              · simp [same, Operation.importCode?]
              · simp [new, Operation.importCode?]
          | addDefinition | setDefinition | name =>
              simp [serve, addDefinition, setDefinition, Operation.importCode?]
          | reset => contradiction

theorem get?_definitions_eq_none_iff (key : String) :
    (run names operations).definitions.definitions.get? key = none ↔
      ∀ operation ∈ recent operations, operation.definedKey? ≠ some key := by
  rw [Table.get?_eq_none_iff, keys_definitions]
  simp

theorem get?_helperNames_eq_none_iff (key : String) :
    (run names operations).definitions.helperNames.get? key = none ↔
      ∀ operation ∈ recent operations, operation.helperKey? ≠ some key := by
  rw [Table.get?_eq_none_iff, keys_helperNames]
  simp

variable {operations : List Operation} {operation : Operation} {key code : String}

theorem get?_of_writes (writes : Writes names operations key operation code) :
    ((run names operations).serve operation).definitions.definitions.get? key = some code := by
  cases writes with
  | set => exact Table.get?_put_self ..
  | provide template indent first =>
      have unknown := (get?_helperNames_eq_none_iff names operations key).mpr first
      rcases (run names operations).provide_cases key template indent with
        ⟨known, -⟩ | ⟨-, given, new⟩
      · rw [unknown] at known
        contradiction
      · rw [new, given]
        exact Table.get?_put_self ..
  | add _ missing =>
      have unknown := (get?_definitions_eq_none_iff names operations key).mpr missing
      simp [serve, addDefinition, Table.get?_putNew_self, unknown]

theorem get?_of_quiet (goesOn : operation ≠ .reset)
    (quiet : ∀ other, ¬ Writes names operations key operation other) :
    ((run names operations).serve operation).definitions.definitions.get? key =
      (run names operations).definitions.definitions.get? key := by
  cases operation with
  | addDefinition own code =>
      by_cases same : own = key
      · subst same
        cases found : (run names operations).definitions.definitions.get? own with
        | some old => exact Table.get?_putNew_of_some found _ _
        | none =>
            have missing := (get?_definitions_eq_none_iff names operations own).mp found
            exact absurd (.add code missing) (quiet code)
      · exact Table.get?_putNew_of_ne _ _ same
  | setDefinition own code =>
      have other : own ≠ key := by
        rintro rfl
        exact quiet code (.set code)
      exact Table.get?_put_of_ne _ _ other
  | provide own template indent =>
      rcases (run names operations).provide_cases own template indent with
        ⟨-, same⟩ | ⟨unknown, -, new⟩
      · rw [same]
      · have other : own ≠ key := by
          rintro rfl
          have first := (get?_helperNames_eq_none_iff names operations own).mp unknown
          exact quiet _ (.provide template indent first)
        rw [new]
        exact Table.get?_put_of_ne _ _ other
  | addImport | name => rfl
  | reset => contradiction

/-- What is defined under a key is what was written last. -/
theorem get?_definitions : (run names operations).definitions.definitions.get? key = some code ↔
    IsLatest names operations key code := by
  induction operations using List.reverseRecOn with
  | nil => simp [run, IsLatest]
  | append_singleton operations operation ih =>
      rw [isLatest_concat, ← ih, run_concat]
      by_cases reset : operation = .reset
      · subst reset
        have nothing : ¬ Writes names operations key .reset code := by rintro ⟨⟩
        simp [serve, Definitions.reset, nothing]
      · by_cases written : ∃ other, Writes names operations key operation other
        · obtain ⟨other, writes⟩ := written
          rw [get?_of_writes names writes]
          constructor
          · intro same
            exact .inl (Option.some.inj same ▸ writes)
          · rintro (again | ⟨-, -, quiet⟩)
            · rw [← get?_of_writes names writes, get?_of_writes names again]
            · exact absurd writes (quiet other)
        · have quiet := not_exists.mp written
          rw [get?_of_quiet names reset quiet]
          simp [reset, quiet]

/-! The names of helpers. -/

/-- The names of helpers are taken, and no two helpers share one. -/
structure Owned (registry : Registry) : Prop where
  taken : ∀ {key name}, registry.definitions.helperNames.get? key = some name →
    name ∈ registry.names.taken
  unique : ∀ {key other name}, registry.definitions.helperNames.get? key = some name →
    registry.definitions.helperNames.get? other = some name → key = other

variable {registry : Registry} {name : String}

theorem mem_taken_of_call {names : Names} (taken : name ∈ names.taken) (call : Names.Call) :
    name ∈ (call.serve names).2.taken := by
  cases call with
  | distinct category raw => exact List.mem_cons_of_mem _ taken
  | get category raw =>
      cases known : names.lookup category raw with
      | some given => simpa [Names.Call.serve, Names.get, known] using taken
      | none =>
          simp only [Names.Call.serve, Names.get, known]
          exact List.mem_cons_of_mem _ taken

theorem mem_taken_serve (taken : name ∈ registry.names.taken) (operation : Operation) :
    name ∈ (registry.serve operation).names.taken := by
  cases operation with
  | provide key template indent =>
      rcases registry.provide_cases key template indent with ⟨-, same⟩ | ⟨-, -, new⟩
      · rwa [same]
      · rw [new]
        exact List.mem_cons_of_mem _ taken
  | name call => exact mem_taken_of_call taken call
  | addImport | addDefinition | setDefinition | reset => exact taken

/-- A name that is taken gets no new owner, and keeps the one it has until a reset. -/
theorem get?_helperNames_serve (taken : name ∈ registry.names.taken) (operation : Operation)
    (key : String) :
    (registry.serve operation).definitions.helperNames.get? key = some name ↔
      operation ≠ .reset ∧ registry.definitions.helperNames.get? key = some name := by
  cases operation with
  | provide own template indent =>
      rcases registry.provide_cases own template indent with ⟨-, same⟩ | ⟨unknown, -, new⟩
      · simp [same]
      · rw [new]
        by_cases same : own = key
        · subst same
          have fresh : registry.names.fresh own ≠ name := by
            rintro rfl
            exact registry.names.fresh_not_mem_taken own taken
          simp [unknown, fresh]
        · simp [Table.get?_put_of_ne _ _ same]
  | reset => simp [serve, Definitions.reset]
  | addImport | addDefinition | setDefinition | name =>
      simp [serve, addImport, addDefinition, setDefinition]

/-- A helper has the name that it had, or was just given a fresh one. -/
theorem helperName_cases {key : String} (operation : Operation)
    (known : (registry.serve operation).definitions.helperNames.get? key = some name) :
    registry.definitions.helperNames.get? key = some name ∨
      operation.helperKey? = some key ∧ name ∉ registry.names.taken ∧
        name ∈ (registry.serve operation).names.taken := by
  by_cases taken : name ∈ registry.names.taken
  · exact .inl ((get?_helperNames_serve taken operation key).mp known).2
  · cases operation with
    | provide own template indent =>
        rcases registry.provide_cases own template indent with ⟨-, same⟩ | ⟨-, -, new⟩
        · rw [same] at known
          exact .inl known
        · rw [new] at known ⊢
          by_cases same : own = key
          · subst same
            rw [Table.get?_put_self] at known
            obtain rfl := Option.some.inj known
            exact .inr ⟨rfl, taken, List.mem_cons_self⟩
          · rw [Table.get?_put_of_ne _ _ same] at known
            exact .inl known
    | reset => simp [serve, Definitions.reset] at known
    | addImport | addDefinition | setDefinition | name => exact .inl known

theorem Owned.serve (owned : registry.Owned) (operation : Operation) :
    (registry.serve operation).Owned := by
  constructor
  · intro key name known
    rcases helperName_cases operation known with old | ⟨-, -, taken⟩
    · exact mem_taken_serve (owned.taken old) operation
    · exact taken
  · intro key other name known known'
    rcases helperName_cases operation known with old | ⟨asked, fresh, -⟩
    · rcases helperName_cases operation known' with old' | ⟨-, fresh, -⟩
      · exact owned.unique old old'
      · exact absurd (owned.taken old) fresh
    · rcases helperName_cases operation known' with old' | ⟨asked', -, -⟩
      · exact absurd (owned.taken old') fresh
      · exact Option.some.inj (asked.symm.trans asked')

theorem owned_run (operations : List Operation) : (run names operations).Owned := by
  induction operations using List.reverseRecOn with
  | nil => exact ⟨nofun, nofun⟩
  | append_singleton operations operation ih =>
      rw [run_concat]
      exact ih.serve operation

/-- Of the names that are taken, a request is answered with the one that the helper has. -/
theorem answer_eq_iff (taken : name ∈ registry.names.taken) (key : String)
    (template : List String) (indent : String) :
    registry.answer key template indent = name ↔
      registry.definitions.helperNames.get? key = some name := by
  rcases registry.provide_cases key template indent with ⟨known, -⟩ | ⟨unknown, given, -⟩
  · rw [known, Option.some.injEq]
  · rw [unknown, given]
    refine iff_of_false ?_ nofun
    rintro rfl
    exact registry.names.fresh_not_mem_taken key taken

/-- The answer to a request is from then on the name of that helper. -/
theorem get?_helperNames_provide (registry : Registry) (key : String) (template : List String)
    (indent : String) :
    (registry.serve (.provide key template indent)).definitions.helperNames.get? key =
      some (registry.answer key template indent) := by
  rcases registry.provide_cases key template indent with ⟨known, same⟩ | ⟨-, given, new⟩
  · rw [same, known]
  · rw [new, given]
    exact Table.get?_put_self ..

/-- A name that is taken stays so, and with its owner up to the next reset. -/
theorem get?_helperNames_run (past : List Operation)
    (taken : name ∈ (run names past).names.taken) (between : List Operation) (key : String) :
    name ∈ (run names (past ++ between)).names.taken ∧
      ((run names (past ++ between)).definitions.helperNames.get? key = some name ↔
        (run names past).definitions.helperNames.get? key = some name ∧ .reset ∉ between) := by
  induction between using List.reverseRecOn with
  | nil => simpa using taken
  | append_singleton between operation ih =>
      rw [← List.append_assoc, run_concat, get?_helperNames_serve ih.1, ih.2]
      refine ⟨mem_taken_serve ih.1 operation, ?_⟩
      simp only [List.mem_append, List.mem_singleton, not_or, ne_comm]
      tauto

/-- Two requests for helpers are answered with one name exactly if they are for the same helper, with
no reset between them. -/
theorem answer_eq_answer_iff (past between : List Operation) (key other : String)
    (template template' : List String) (indent indent' : String) :
    (run names past).answer key template indent =
        (run names (past ++ .provide key template indent :: between)).answer other template' indent'
      ↔ key = other ∧ .reset ∉ between := by
  let first := past ++ [Operation.provide key template indent]
  have split : past ++ .provide key template indent :: between = first ++ between := by
    simp [first]
  have named : (run names first).definitions.helperNames.get? key =
      some ((run names past).answer key template indent) := by
    rw [run_concat]
    exact get?_helperNames_provide ..
  have owned := owned_run names first
  have later := get?_helperNames_run names first (owned.taken named) between other
  rw [split, eq_comm, answer_eq_iff later.1, later.2]
  refine and_congr_left fun _ => ⟨fun known => owned.unique named known, ?_⟩
  rintro rfl
  exact named

end Registry

/-- Whatever is done to the definitions: keys come once each, in the order in which they came up
since the last reset; an import has the code that was given first, and a definition the code that was
written last; a helper keeps its name up to a reset, and no other request is answered with it. -/
theorem registry_holds (names : Names) (operations : List Operation) :
    ((Registry.run names operations).definitions.imports.keys.Nodup ∧
      (Registry.run names operations).definitions.imports.keys =
        ((recent operations).filterMap Operation.importKey?).eraseDups) ∧
    ((Registry.run names operations).definitions.definitions.keys.Nodup ∧
      (Registry.run names operations).definitions.definitions.keys =
        ((recent operations).filterMap Operation.definedKey?).eraseDups) ∧
    (∀ key, (Registry.run names operations).definitions.imports.get? key =
      (recent operations).findSome? (Operation.importCode? key)) ∧
    (∀ key code, (Registry.run names operations).definitions.definitions.get? key = some code ↔
      IsLatest names operations key code) ∧
    (∀ past between key other template template' indent indent',
      operations = past ++ .provide key template indent :: between →
      ((Registry.run names past).answer key template indent =
          (Registry.run names operations).answer other template' indent' ↔
        key = other ∧ .reset ∉ between)) := by
  have imports := Registry.keys_imports names operations
  have definitions := Registry.keys_definitions names operations
  refine ⟨⟨?_, imports⟩, ⟨?_, definitions⟩, Registry.get?_imports names operations,
    fun key code => Registry.get?_definitions names, ?_⟩
  · rw [imports]
    exact nodup_eraseDups _
  · rw [definitions]
    exact nodup_eraseDups _
  · rintro past between key other template template' indent indent' rfl
    exact Registry.answer_eq_answer_iff names past between key other template template' indent indent'

example : (Registry.run {} [.addDefinition "f" "1", .provide "f" ["2"] "  ", .setDefinition "g" "3",
    .addDefinition "g" "4", .provide "f" ["5"] "  "]).definitions.definitions =
      [("f", "2"), ("g", "3")] := by decide

end Definitions

end BlockScript
