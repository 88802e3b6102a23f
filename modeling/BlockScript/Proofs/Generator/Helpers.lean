import BlockScript.Proofs.Generator.Defined
import BlockScript.Proofs.Generator.HelperLines

/-! # Helpers stay defined

Only the request for a helper writes under the key of the helper, so what was written then stays,
whatever else a pass defines. The name goes with it: no routine of the user is defined under the
name of a helper. -/

namespace BlockScript

open Template (definitionKey handlerName)
open Ledger

/-- Under a key that was written there is one entry. -/
theorem Table.filter_key_eq {α : Type} {t : Table α} {key : String} {value : α}
    (distinct : (keys t).Nodup) (h : t.get? key = some value) :
    t.filter (·.1 = key) = [(key, value)] := by
  induction t with
  | nil => simp at h
  | cons e rest ih =>
      obtain ⟨fresh, distinct⟩ := List.nodup_cons.mp distinct
      by_cases same : e.1 = key
      · rw [get?, if_pos same] at h
        obtain rfl := Option.some.inj h
        have none : rest.filter (·.1 = key) = [] := by
          refine List.filter_eq_nil_iff.mpr fun other ho hk => fresh ?_
          exact List.mem_map.mpr ⟨other, ho, (of_decide_eq_true hk).trans same.symm⟩
        rw [List.filter_cons_of_pos (by simpa using same), none, ← same]
      · rw [get?, if_neg same] at h
        rw [List.filter_cons_of_neg (by simpa using same), ih distinct h]

/-- An event does not overwrite anything under the key of a helper. -/
def Event.SparesHelpers : Event → Prop
  | .define key _ => ∀ h : Helper, h.key ≠ key
  | _ => True

namespace Ledger
variable {indent : String} {ledger after : Ledger} {e : Event}

/-- Each helper that has a name is defined under its own key, by its own template. -/
def Stocked (indent : String) (ledger : Ledger) : Prop :=
  ∀ key given, ledger.definitions.helperNames.get? key = some given →
    ∃ h : Helper, h.key = key ∧ ledger.definitions.definitions.get? key =
      some (Definitions.helperCode h.template indent given)

theorem Stocked.empty : Stocked indent {} :=
  fun _ _ h => by simp at h

/-- Every event that spares helpers keeps them defined. -/
theorem Stocked.step (stocked : Stocked indent ledger) (h : Step indent ledger e after)
    (spares : e.SparesHelpers) : Stocked indent after := by
  intro key given known
  cases h with
  | name category raw =>
      rw [getName_definitions] at known ⊢
      exact stocked _ _ known
  | helper h =>
      rw [provide_definitions] at known ⊢
      cases hk : ledger.definitions.helperNames.get? h.key with
      | some name =>
          simp only [hk] at known ⊢
          exact stocked _ _ known
      | none =>
          simp only [hk] at known ⊢
          by_cases same : h.key = key
          · subst same
            rw [Table.get?_put_self] at known
            obtain rfl := Option.some.inj known
            exact ⟨h, rfl, Table.get?_put_self _ _ _⟩
          · rw [Table.get?_put_of_ne _ _ same] at known ⊢
            exact stocked _ _ known
  | declare key code =>
      obtain ⟨h, hkey, defined⟩ := stocked _ _ known
      exact ⟨h, hkey, Table.get?_putNew_of_some defined _ _⟩
  | define key code =>
      obtain ⟨h, rfl, defined⟩ := stocked _ _ known
      exact ⟨h, rfl, (Table.get?_put_of_ne _ _ (spares h).symm).trans defined⟩
  | temporary | require | clearWidgets | addWidget => exact stocked _ _ known

/-- What spares helpers keeps them defined. -/
theorem Stocked.steps {events : List Event} (stocked : Stocked indent ledger)
    (h : Steps indent ledger events after) (spares : ∀ e ∈ events, e.SparesHelpers) :
    Stocked indent after := by
  induction h with
  | refl => exact stocked
  | cons head tail ih =>
      obtain ⟨first, rest⟩ := List.forall_mem_cons.mp spares
      exact ih (stocked.step head first) rest

/-- The name of a helper stays whatever is asked for. -/
theorem Step.keeps_helperName (h : Step indent ledger e after) {key given : String}
    (known : ledger.definitions.helperNames.get? key = some given) :
    after.definitions.helperNames.get? key = some given := by
  cases h with
  | name category raw => rwa [getName_definitions]
  | helper h =>
      rw [provide_definitions]
      split
      · exact known
      · next missing =>
          have other : h.key ≠ key := by
            rintro rfl
            rw [known] at missing
            contradiction
          exact (Table.get?_put_of_ne _ _ other).trans known
  | temporary | require | declare | define | clearWidgets | addWidget => exact known

theorem Steps.keeps_helperName {events : List Event} (h : Steps indent ledger events after)
    {key given : String} (known : ledger.definitions.helperNames.get? key = some given) :
    after.definitions.helperNames.get? key = some given :=
  h.keeps (fun head known => head.keeps_helperName known) known

end Ledger

/-! No event of a pass overwrites a helper. -/

/-- A block does not overwrite helpers: its definitions are those of the user. -/
theorem Block.spares_helpers {o : Options} {b : Block} {alone : Bool} {ledger : Ledger}
    (reachable : Reachable o.indent ledger) :
    ∀ e ∈ b.events o alone ledger, e.SparesHelpers := by
  intro e he
  cases e with
  | define key code =>
      obtain ⟨name, rfl, -⟩ := (b.defines_routines reachable he).2
      exact fun h => h.key_ne_definitionKey name
  | _ => trivial

theorem passEvents_spare_helpers {o : Options} {blocks : List Block} {ledger : Ledger}
    (reachable : Reachable o.indent ledger) :
    ∀ e ∈ passEvents o blocks ledger, e.SparesHelpers := by
  intro e he
  obtain ⟨visit, hv, he⟩ := exists_visit_of_mem_passEvents he
  exact Block.spares_helpers (passVisits_reachable reachable visit hv) e he

theorem declareEvents_spare_helpers (nodes : List Node) :
    ∀ e ∈ declareEvents nodes, e.SparesHelpers := by
  intro e he
  rcases mem_declareEvents he with ⟨category, raw, given, rfl⟩ | rfl <;> trivial

/-- What a pass starts from, and what it then goes through. -/
theorem stocked_declareNames (indent : String) (nodes : List Node) :
    Stocked indent (declareNames {} nodes) :=
  Stocked.empty.steps (steps_declareEvents indent nodes) (declareEvents_spare_helpers nodes)

/-- A state in the middle of a pass, with the requests that are still to come: from the declaration
of names, or from one of the blocks at the top, which may fail in the end. -/
inductive Midway (o : Options) (w : Workspace) : Ledger → List Event → Prop
  | declaring {done pending : List Event} {ledger : Ledger}
      (steps : Steps o.indent {} done ledger)
      (all : done ++ pending = declareEvents w.walk) : Midway o w ledger pending
  | rendering {before after : List Block} {b : Block} {harvest : Harvest} {start ledger : Ledger}
      {done pending : List Event} (order : w.orderedBlocks = before ++ b :: after)
      (reached : renderAll o before (declareNames {} w.walk) = (.ok harvest, start))
      (steps : Steps o.indent start done ledger)
      (all : done ++ pending = b.events o false start) : Midway o w ledger pending

namespace Midway
variable {o : Options} {w : Workspace} {ledger later : Ledger} {first pending : List Event}

/-- After some more of the requests a pass is still in the middle. -/
theorem steps (midway : Midway o w ledger (first ++ pending))
    (h : Steps o.indent ledger first later) : Midway o w later pending := by
  cases midway with
  | declaring before all => exact .declaring (before.append h) (by rw [← all, List.append_assoc])
  | rendering order reached before all =>
      exact .rendering order reached (before.append h) (by rw [← all, List.append_assoc])

theorem reachable (midway : Midway o w ledger pending) : Reachable o.indent ledger := by
  cases midway with
  | declaring before all => exact ⟨_, before⟩
  | rendering order reached before all =>
      have start := (reachable_declareNames o.indent w.walk).of_steps (steps_renderAll reached)
      exact start.of_steps before

/-- Wherever a pass is, the helpers that have names are defined. -/
theorem stocked (midway : Midway o w ledger pending) : Stocked o.indent ledger := by
  cases midway with
  | declaring before all =>
      refine Stocked.empty.steps before fun e he => ?_
      exact declareEvents_spare_helpers w.walk e (all ▸ List.mem_append_left _ he)
  | rendering order reached before all =>
      have reachable := reachable_declareNames o.indent w.walk
      have run := steps_renderAll reached
      have start := (stocked_declareNames o.indent w.walk).steps run
        (passEvents_spare_helpers reachable)
      refine start.steps before fun e he => ?_
      exact Block.spares_helpers (reachable.of_steps run) e (all ▸ List.mem_append_left _ he)

end Midway

/-! The names of helpers are no names of routines. -/

theorem Helper.head?_of_isMadeOf {h : Helper} {given : String} (made : Names.IsMadeOf h.key given) :
    given.toList.head? ≠ some 'o' := by
  have own : (Names.safeName h.key).toList.head? ≠ some 'o' := by
    cases h <;> decide
  obtain ⟨i, rfl⟩ := made
  cases i with
  | zero => exact own
  | succ n =>
      have hne : (Names.safeName h.key).toList ≠ [] := by
        intro hnil
        have identifier := Names.isIdentifier_safeName h.key
        rw [hnil] at identifier
        exact Bool.noConfusion identifier
      rw [Names.candidate, String.toList_append, List.head?_append_of_ne_nil _ hne]
      exact own

namespace Ledger

/-- No procedure and no handler has the name of a helper. -/
theorem Coherent.not_defined {o : Options} {blocks : List Block} {start final : Ledger}
    (reachable : Reachable o.indent start)
    (coherent : Coherent (passEvents o blocks start) final) (derived : final.Derived) {h : Helper}
    {given : String} (provided : .helper h given ∈ passEvents o blocks start) (code : String) :
    .define (definitionKey given) code ∉ passEvents o blocks start := by
  intro defined
  obtain ⟨visit, hv, he⟩ := exists_visit_of_mem_passEvents defined
  obtain ⟨name, hname, routine⟩ :=
    (visit.1.defines_routines (passVisits_reachable reachable visit hv) he).2
  obtain rfl := Template.definitionKey_injective hname
  have known := coherent.helped provided
  rcases routine with ⟨raw, named⟩ | ⟨widget, event, -, rfl⟩
  · have inPass : .name .procedureName raw given ∈ passEvents o blocks start := by
      rw [passEvents_eq]
      exact List.mem_flatMap.mpr ⟨visit, hv, named⟩
    have owners := coherent.unique (.helper known) (.entry (coherent.named inPass))
    exact Owner.noConfusion owners
  · exact Helper.head?_of_isMadeOf (derived.helpers known) (Template.head?_handlerName _ _)

end Ledger

/-- In the middle of every pass, and so wherever a pass may be, each helper that has a name is
defined under its key exactly once, by its own template with the name in every place for it and the
lines indented as the script is, and no further request changes that. A helper that a block without
an error asked for is in the program, written so, under the same name for all who asked, and no
other helper and no routine of the user has this name. -/
theorem generate_helpers (g : Generator) (w : Workspace) :
    let indent := g.options.indent
    let start := Ledger.declareNames {} w.walk
    let events := passEvents g.options w.orderedBlocks start
    (∀ ledger pending, Midway g.options w ledger pending → ∀ key given,
      ledger.definitions.helperNames.get? key = some given →
        (∃ (h : Helper) (code : String), h.key = key ∧
          ledger.definitions.definitions.filter (·.1 = key) = [(key, code)] ∧
          Definitions.IsWritten h.template indent given code) ∧
        ∀ first rest later, pending = first ++ rest → Steps indent ledger first later →
          Midway g.options w later rest ∧
            later.definitions.helperNames.get? key = some given) ∧
    (∀ before after harvest ledger, w.orderedBlocks = before ++ after →
      renderAll g.options before start = (.ok harvest, ledger) →
      ∀ h given, .helper h given ∈ passEvents g.options before start →
        ledger.definitions.helperNames.get? h.key = some given) ∧
    ∀ program, (g.generate w).1 = .ok program → ∀ h given, .helper h given ∈ events →
      (∃ code, program.definitions.filter (·.1 = h.key) = [(h.key, code)] ∧
          Definitions.IsWritten h.template indent given code) ∧
        program.definitions.get? (definitionKey given) = none ∧
        ∀ h' given', .helper h' given' ∈ events → (h' = h ↔ given' = given) := by
  intro indent start events
  have reachable : Reachable indent start := reachable_declareNames indent w.walk
  refine ⟨?_, ?_, ?_⟩
  · intro ledger pending midway key given known
    constructor
    · obtain ⟨h, hkey, defined⟩ := midway.stocked _ _ known
      exact ⟨h, _, hkey, Table.filter_key_eq midway.reachable.nodup_keys defined,
        Definitions.isWritten_helperCode h.template indent given⟩
    · rintro first rest later rfl steps
      exact ⟨midway.steps steps, steps.keeps_helperName known⟩
  · intro before after harvest ledger _ reached h given provided
    have coherent : Coherent (passEvents g.options before start) ledger :=
      reachable.coherent.steps (steps_renderAll reached)
    exact coherent.helped provided
  · intro program success h given provided
    obtain ⟨harvest, final, run, rfl, -⟩ := g.generate_eq_ok success
    have steps : Steps indent start events final := steps_renderAll run
    have stocked : Stocked indent final :=
      (stocked_declareNames indent w.walk).steps steps (passEvents_spare_helpers reachable)
    have coherent : Coherent events final := reachable.coherent.steps steps
    have known := coherent.helped provided
    refine ⟨?_, ?_, ?_⟩
    · obtain ⟨h', hkey, defined⟩ := stocked _ _ known
      obtain rfl := Helper.key_injective hkey
      exact ⟨_, Table.filter_key_eq (reachable.of_steps steps).nodup_keys defined,
        Definitions.isWritten_helperCode h'.template indent given⟩
    · rw [Table.get?_eq_none_iff]
      intro mem
      obtain ⟨code, defined⟩ := mem_passEvents_of_mem_keys steps mem
      have derived : final.Derived := (reachable.of_steps steps).derived
      exact coherent.not_defined reachable derived provided code defined
    · intro h' given' provided'
      have known' := coherent.helped provided'
      constructor
      · rintro rfl
        exact Option.some.inj (known'.symm.trans known)
      · rintro rfl
        exact Helper.key_injective
          (Owner.helper.inj (coherent.unique (.helper known') (.helper known)))

/-- A block that adds up an empty list. -/
def emptySum (id : String) : Block :=
  { node := { id, kindName := "math_on_list", fields := [("OP", "SUM")] } }

theorem generate_helpers_emptySums :
    let g : Generator := { options := { indent := "\t" } }
    let w : Workspace := { blocks := [emptySum "a", emptySum "b"] }
    let code := "num math_sum(List<num> myList) \x7b\n\tnum sumVal = 0;\n" ++
      "\tmyList.forEach((num entry) \x7bsumVal += entry;\x7d);\n\treturn sumVal;\n\x7d"
    ∃ program, (g.generate w).1 = .ok program ∧
      program.definitions.filter (·.1 = "math_sum") = [("math_sum", code)] ∧
      Definitions.IsWritten Helper.sum.template "\t" "math_sum" code := by
  intro g w code
  obtain ⟨-, -, final⟩ := generate_helpers g w
  obtain ⟨⟨own, once, written⟩, -⟩ := final _ rfl .sum "math_sum" (by decide)
  obtain rfl : own = code := by
    have entry : [("math_sum", own)] = [("math_sum", code)] := once.symm.trans (by decide)
    simpa using entry
  exact ⟨_, rfl, once, written⟩

end BlockScript
