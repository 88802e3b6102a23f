import BlockScript.Proofs.Generator.Literals
import BlockScript.Proofs.Template.TidyBlocks
import BlockScript.Proofs.Workspace.Tables

/-! # What a pass defines

The definitions of a program have three writers: helpers, which are defined at the first request,
the declaration of the variables, which gives way, and the routines of the user, which overwrite.
Each writes under keys of its own kind, and under no key but those that the events tell. -/

namespace BlockScript

open Template (definitionKey)

namespace Table
variable {α : Type} {t : Table α} {key other : String} {value : α}

theorem mem_of_mem_putNew {e : String × α} (h : e ∈ t.putNew key value) :
    e = (key, value) ∨ e ∈ t := by
  unfold putNew at h
  split at h
  · exact .inr h
  · simpa [or_comm] using h

theorem mem_keys_of_mem_put (h : key ∈ keys (t.put other value)) : key = other ∨ key ∈ keys t := by
  rw [keys_put] at h
  split at h
  · exact .inr h
  · simpa [or_comm] using h

theorem mem_keys_put_self (t : Table α) (key : String) (value : α) :
    key ∈ keys (t.put key value) :=
  mem_keys_of_mem (mem_of_get? (get?_put_self t key value))

theorem mem_keys_put (h : other ∈ keys t) (key : String) (value : α) :
    other ∈ keys (t.put key value) := by
  rw [keys_put]
  split
  · exact h
  · exact List.mem_append_left _ h

theorem mem_keys_of_mem_putNew (h : key ∈ keys (t.putNew other value)) :
    key = other ∨ key ∈ keys t := by
  obtain ⟨e, he, rfl⟩ := List.mem_map.mp h
  exact (mem_of_mem_putNew he).imp (congrArg Prod.fst) List.mem_map_of_mem

theorem mem_keys_putNew_self (t : Table α) (key : String) (value : α) :
    key ∈ keys (t.putNew key value) := by
  unfold putNew
  split
  · next found => exact mem_keys_of_mem (mem_of_get? found)
  · simp

theorem mem_keys_putNew (h : other ∈ keys t) (key : String) (value : α) :
    other ∈ keys (t.putNew key value) := by
  unfold putNew
  split
  · exact h
  · rw [keys_append]
    exact List.mem_append_left _ h

theorem get?_putNew_of_some (h : t.get? key = some value) (other : String) (value' : α) :
    (t.putNew other value').get? key = some value := by
  unfold putNew
  split
  · exact h
  · exact get?_append_of_some h _

theorem get?_putNew_of_ne (t : Table α) (value : α) (h : key ≠ other) :
    (t.putNew key value).get? other = t.get? other := by
  have apart : get? (t ++ [(key, value)]) other = t.get? other := by
    induction t with
    | nil => simp [get?, h]
    | cons e rest ih => simp only [List.cons_append, get?, ih]
  unfold putNew
  split
  · rfl
  · exact apart

theorem nodup_keys_put (distinct : (keys t).Nodup) (key : String) (value : α) :
    (keys (t.put key value)).Nodup := by
  rw [keys_put]
  split
  · exact distinct
  · next fresh => exact List.nodup_append_comm.mpr (List.nodup_cons.mpr ⟨fresh, distinct⟩)

theorem nodup_keys_putNew (distinct : (keys t).Nodup) (key : String) (value : α) :
    (keys (t.putNew key value)).Nodup := by
  unfold putNew
  split
  · exact distinct
  · next missing =>
      have fresh := (get?_eq_none_iff t key).mp missing
      rw [keys_append]
      exact List.nodup_append_comm.mpr (List.nodup_cons.mpr ⟨fresh, distinct⟩)

end Table

namespace Ledger
variable {indent : String} {ledger after : Ledger} {e : Event} {key : String}

/-! What requests make of the definitions. -/

@[simp] theorem getName_definitions (ledger : Ledger) (category : NameCategory) (raw : String) :
    (ledger.getName category raw).2.definitions = ledger.definitions := by
  rcases getName_cases ledger category raw with ⟨_, _, heq⟩ | ⟨_, heq⟩ <;> rw [heq]

/-- A request for a helper that is not there yet defines it. -/
theorem provide_definitions (ledger : Ledger) (h : Helper) (indent : String) :
    (ledger.provide h indent).2.definitions =
      match ledger.definitions.helperNames.get? h.key with
      | some _ => ledger.definitions
      | none =>
          { ledger.definitions with
            helperNames := ledger.definitions.helperNames.put h.key (ledger.names.fresh h.key)
            definitions := ledger.definitions.definitions.put h.key
              (Definitions.helperCode h.template indent (ledger.names.fresh h.key)) } := by
  cases hk : ledger.definitions.helperNames.get? h.key with
  | some given => simp [provide, Definitions.provide, hk]
  | none => simp [provide, Definitions.provide, Names.distinct, hk]

/-- No key is defined twice. -/
theorem Step.nodup_keys (h : Step indent ledger e after)
    (distinct : (Table.keys ledger.definitions.definitions).Nodup) :
    (Table.keys after.definitions.definitions).Nodup := by
  cases h with
  | name category raw => rwa [getName_definitions]
  | helper h =>
      rw [provide_definitions]
      split
      · exact distinct
      · exact Table.nodup_keys_put distinct _ _
  | declare key code => exact Table.nodup_keys_putNew distinct _ _
  | define key code => exact Table.nodup_keys_put distinct _ _
  | temporary | require | clearWidgets | addWidget => exact distinct

theorem Reachable.nodup_keys (h : Reachable indent ledger) :
    (Table.keys ledger.definitions.definitions).Nodup := by
  obtain ⟨events, steps⟩ := h
  exact steps.keeps (fun head distinct => head.nodup_keys distinct) List.nodup_nil

end Ledger

/-- The key that an event may write a definition under. -/
def Event.writes? : Event → Option String
  | .define key _ | .declare key _ => some key
  | .helper h _ => some h.key
  | _ => none

namespace Ledger
variable {indent : String} {ledger after : Ledger} {e : Event} {key : String}

theorem Step.mem_keys (h : Step indent ledger e after)
    (mem : key ∈ Table.keys after.definitions.definitions) :
    e.writes? = some key ∨ key ∈ Table.keys ledger.definitions.definitions := by
  cases h with
  | name category raw => exact .inr (by rwa [getName_definitions] at mem)
  | helper h =>
      rw [provide_definitions] at mem
      split at mem
      · exact .inr mem
      · exact (Table.mem_keys_of_mem_put mem).imp_left fun same => congrArg some same.symm
  | declare other code =>
      exact (Table.mem_keys_of_mem_putNew mem).imp_left fun same => congrArg some same.symm
  | define other code =>
      exact (Table.mem_keys_of_mem_put mem).imp_left fun same => congrArg some same.symm
  | temporary | require | clearWidgets | addWidget => exact .inr mem

/-- Nothing is defined that no event defines. -/
theorem Steps.mem_keys {events : List Event} (h : Steps indent ledger events after)
    (mem : key ∈ Table.keys after.definitions.definitions) :
    (∃ e ∈ events, e.writes? = some key) ∨ key ∈ Table.keys ledger.definitions.definitions := by
  induction h with
  | refl => exact .inr mem
  | cons head tail ih =>
      rcases ih mem with ⟨e, he, writes⟩ | mem
      · exact .inl ⟨e, List.mem_cons_of_mem _ he, writes⟩
      · exact (head.mem_keys mem).imp_left fun writes => ⟨_, List.mem_cons_self, writes⟩

/-- An event writes under no key but its own. -/
theorem Step.get?_of_other (h : Step indent ledger e after) (other : e.writes? ≠ some key) :
    after.definitions.definitions.get? key = ledger.definitions.definitions.get? key := by
  have differs {own : String} (writes : e.writes? = some own) : own ≠ key := by
    rintro rfl
    exact other writes
  cases h with
  | name category raw => rw [getName_definitions]
  | helper h =>
      rw [provide_definitions]
      split
      · rfl
      · exact Table.get?_put_of_ne _ _ (differs rfl)
  | declare own code => exact Table.get?_putNew_of_ne _ _ (differs rfl)
  | define own code => exact Table.get?_put_of_ne _ _ (differs rfl)
  | temporary | require | clearWidgets | addWidget => rfl

theorem Steps.get?_of_others {events : List Event} (h : Steps indent ledger events after)
    (others : ∀ e ∈ events, e.writes? ≠ some key) :
    after.definitions.definitions.get? key = ledger.definitions.definitions.get? key := by
  induction h with
  | refl => rfl
  | cons head tail ih =>
      obtain ⟨first, rest⟩ := List.forall_mem_cons.mp others
      exact (ih rest).trans (head.get?_of_other first)

end Ledger

/-! Keys of routines. -/

namespace Template

theorem definitionKey_injective : Function.Injective definitionKey :=
  fun _ _ h => (String.append_right_inj "%").mp h

/-- The declaration of the variables is under the key of no routine. -/
theorem definitionKey_ne_variablesKey (name : String) :
    definitionKey name ≠ Ledger.variablesKey := by
  intro heq
  have hfirst := congrArg (fun key => key.toList.head?) heq
  simp [definitionKey] at hfirst
  revert hfirst
  decide

end Template

/-! The events of a pass. -/

open Ledger

theorem passVisits_reachable {o : Options} {blocks : List Block} {ledger : Ledger}
    (reachable : Reachable o.indent ledger) :
    ∀ visit ∈ passVisits o blocks ledger, Reachable o.indent visit.2 := by
  induction blocks generalizing ledger with
  | nil => exact fun visit hv => absurd hv List.not_mem_nil
  | cons b rest ih =>
      have next := reachable.of_steps (b.steps_renderTop o ledger)
      intro visit hv
      rcases h : b.renderTop o ledger with ⟨error | line, after⟩
      · cases policy : o.errorPolicy with
        | abort =>
            simp only [passVisits, h, policy] at hv
            exact absurd hv List.not_mem_nil
        | comment =>
            simp only [passVisits, h, policy] at hv
            exact ih reachable visit hv
      · simp only [passVisits, h] at hv
        rw [h] at next
        rcases List.mem_cons.mp hv with rfl | hv
        · exact reachable
        · exact ih next visit hv

/-- An event of a pass is an event of one of the blocks that do not fail. -/
theorem exists_visit_of_mem_passEvents {o : Options} {blocks : List Block} {ledger : Ledger}
    {e : Event} (h : e ∈ passEvents o blocks ledger) :
    ∃ visit ∈ passVisits o blocks ledger, e ∈ visit.1.events o false visit.2 := by
  rw [passEvents_eq] at h
  exact List.mem_flatMap.mp h

theorem mem_passEvents_of_visit {o : Options} {blocks : List Block} {ledger : Ledger} {e : Event}
    {visit : Block × Ledger} (hv : visit ∈ passVisits o blocks ledger)
    (he : e ∈ visit.1.events o false visit.2) : e ∈ passEvents o blocks ledger := by
  rw [passEvents_eq]
  exact List.mem_flatMap.mpr ⟨visit, hv, he⟩

namespace Ledger

/-- The events of giving out the names of variables and procedures, and of declaring the
variables. -/
def declareEvents (nodes : List Node) : List Event :=
  let declared := getNames {} .variableName (variableNames nodes)
  nameEvents {} .variableName (variableNames nodes) ++
    (nameEvents declared.2 .procedureName (definedNames nodes) ++
      if declared.1.isEmpty then []
      else [.declare variablesKey ("var " ++ ", ".intercalate declared.1 ++ ";")])

theorem steps_declareEvents (indent : String) (nodes : List Node) :
    Steps indent {} (declareEvents nodes) (declareNames {} nodes) := by
  refine (steps_getNames indent {} .variableName _).append ?_
  refine (steps_getNames indent _ .procedureName _).append ?_
  change Steps indent _ _ (if _ then _ else _)
  split
  · exact .refl _
  · exact .cons (.declare _ _ _) (.refl _)

theorem exists_name_of_mem_nameEvents {ledger : Ledger} {category : NameCategory}
    {raws : List String} {e : Event} (h : e ∈ nameEvents ledger category raws) :
    ∃ raw ∈ raws, ∃ given, e = .name category raw given := by
  induction raws generalizing ledger with
  | nil => exact absurd h List.not_mem_nil
  | cons raw rest ih =>
      rcases List.mem_cons.mp h with rfl | h
      · exact ⟨raw, List.mem_cons_self, _, rfl⟩
      · obtain ⟨other, hother, named⟩ := ih h
        exact ⟨other, List.mem_cons_of_mem _ hother, named⟩

/-- Before blocks are rendered there are only names, and the declaration of the variables. -/
theorem mem_declareEvents {nodes : List Node} {e : Event} (h : e ∈ declareEvents nodes) :
    (∃ category raw given, e = .name category raw given) ∨
      e = .declare variablesKey ("var " ++ ", ".intercalate
        (getNames {} .variableName (variableNames nodes)).1 ++ ";") := by
  rcases List.mem_append.mp h with h | h
  · obtain ⟨raw, -, named⟩ := exists_name_of_mem_nameEvents h
    exact .inl ⟨_, raw, named⟩
  · rcases List.mem_append.mp h with h | h
    · obtain ⟨raw, -, named⟩ := exists_name_of_mem_nameEvents h
      exact .inl ⟨_, raw, named⟩
    · split at h
      · exact absurd h List.not_mem_nil
      · exact .inr (List.mem_singleton.mp h)

/-- A routine that a program defines is defined by an event. -/
theorem mem_passEvents_of_mem_keys {o : Options} {w : Workspace} {final : Ledger} {name : String}
    (steps : Steps o.indent (declareNames {} w.walk)
      (passEvents o w.orderedBlocks (declareNames {} w.walk)) final)
    (mem : definitionKey name ∈ Table.keys final.definitions.definitions) :
    ∃ code, .define (definitionKey name) code ∈
      passEvents o w.orderedBlocks (declareNames {} w.walk) := by
  rcases ((steps_declareEvents o.indent w.walk).append steps).mem_keys mem with
    ⟨e, he, writes⟩ | mem
  · rcases List.mem_append.mp he with he | he
    · rcases mem_declareEvents he with ⟨category, raw, given, rfl⟩ | rfl
      · simp [Event.writes?] at writes
      · exact absurd (Option.some.inj writes).symm (Template.definitionKey_ne_variablesKey name)
    · cases e with
      | helper h given => exact absurd (Option.some.inj writes) (h.key_ne_definitionKey name)
      | declare key code =>
          obtain ⟨visit, hv, he⟩ := exists_visit_of_mem_passEvents he
          have reachable := passVisits_reachable (reachable_declareNames o.indent w.walk) visit hv
          exact absurd he (Block.declares_nothing reachable)
      | define key code => exact ⟨code, Option.some.inj writes ▸ he⟩
      | _ => simp [Event.writes?] at writes
  · exact absurd mem List.not_mem_nil

end Ledger

end BlockScript
