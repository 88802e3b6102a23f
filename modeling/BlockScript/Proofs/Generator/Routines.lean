import BlockScript.Proofs.Generator.Defined
import BlockScript.Proofs.Template.Routines

/-! # The routines of a program

Every procedure and every handler is defined under the name of its function. Names of procedures
are given out, but names of handlers are put together from names that are given out for widgets, so
a procedure may be given the name of a handler. Then the later of the two definitions takes the
place of the earlier; otherwise all of them are in the program. -/

namespace BlockScript

open Ledger Template

/-- What an event puts among the definitions for a routine. -/
def Event.routine? : Event → Option (String × String)
  | .define key code => some (key, code)
  | _ => none

/-- What a block puts among the definitions when it is rendered from a ledger: keys with codes. -/
def Block.routines (o : Options) (b : Block) (ledger : Ledger) : List (String × String) :=
  (b.events o false ledger).filterMap Event.routine?

/-- The name of the function of a definition, once names are given out. -/
def Block.functionName (names : Names) (b : Block) : String :=
  b.routineName ((names.lookup .procedureName (b.node.fieldText "NAME")).getD "")

/-- Is a block a definition, and that not of a function of a module? -/
def Block.DefinesHere (names : Names) (b : Block) : Prop :=
  b.node.Defines ∧ isQualified (b.functionName names) = false

instance (names : Names) : DecidablePred (Block.DefinesHere names) := fun _ =>
  inferInstanceAs (Decidable (_ ∧ _))

theorem Event.mem_routines {events : List Event} {key code : String} :
    (key, code) ∈ events.filterMap Event.routine? ↔ .define key code ∈ events := by
  rw [List.mem_filterMap]
  constructor
  · rintro ⟨e, he, routine⟩
    cases e with
    | define key' code' =>
        obtain ⟨rfl, rfl⟩ := Prod.mk.inj (Option.some.inj routine)
        exact he
    | _ => simp [routine?] at routine
  · exact fun he => ⟨_, he, rfl⟩

theorem Event.routines_eq_nil {events : List Event} (h : ∀ key code, .define key code ∉ events) :
    events.filterMap Event.routine? = [] := by
  refine List.eq_nil_iff_forall_not_mem.mpr fun ⟨key, code⟩ mem => ?_
  exact h key code (Event.mem_routines.mp mem)

namespace Block
variable {o : Options} {b : Block} {ledger after : Ledger} {line : Option String} {names : Names}

/-- A block at the top that is no definition defines nothing, if no block inside it does. -/
theorem routines_of_not_defines (reachable : Reachable o.indent ledger)
    (none : ∀ n ∈ b.walk, ¬ n.Defines) : b.routines o ledger = [] := by
  refine Event.routines_eq_nil fun key code mem => ?_
  obtain ⟨n, hn, defines⟩ := (defines_routines reachable mem).1
  exact none n hn defines

theorem functionName_eq {given : String}
    (known : names.lookup .procedureName (b.node.fieldText "NAME") = some given) :
    b.functionName names = b.routineName given := by
  rw [functionName, known, Option.getD_some]

/-- A definition at the top with no other inside it puts the code of its function among the
definitions, and nothing else, unless it is a function of a module. -/
theorem routines_of_defines (definition : b.node.Defines) (alone : ∀ n ∈ b.walk.tail, ¬ n.Defines)
    (reachable : Reachable o.indent ledger) (h : b.renderTop o ledger = (.ok line, after))
    (agree : names.Agree (b.events o false ledger)) :
    if b.DefinesHere names then ∃ code, Declares (b.functionName names) code ∧
      b.routines o ledger = [(definitionKey (b.functionName names), code)]
    else b.routines o ledger = [] := by
  obtain ⟨emitted, mid, render, -⟩ := Pass.andThen_eq_ok.mp h
  obtain ⟨-, given, first, rest, split, named, finishes, quiet⟩ :=
    events_definition definition reachable render
  have name : b.functionName names = b.routineName given :=
    functionName_eq (agree _ _ _ (split ▸ List.mem_append_left rest named))
  have routines : b.routines o ledger = rest.filterMap Event.routine? := by
    rw [Block.routines, split, List.filterMap_append, Event.routines_eq_nil (quiet alone),
      List.nil_append]
  rw [← name] at finishes
  cases finishes with
  | served qualified =>
      rw [if_neg fun here => Bool.noConfusion (qualified.symm.trans here.2), routines]
      rfl
  | @defined arguments code unqualified onlyNames declares =>
      have none : arguments.filterMap Event.routine? = [] := by
        refine Event.routines_eq_nil fun key code mem => ?_
        obtain ⟨raw, given, heq⟩ := onlyNames _ mem
        exact Event.noConfusion heq
      rw [if_pos ⟨definition, unqualified⟩]
      refine ⟨code, declares, ?_⟩
      rw [routines, List.filterMap_append, none]
      rfl

end Block

/-! The routines of a pass. -/

section Pass
variable {o : Options} {blocks : List Block} {ledger final : Ledger} {harvest : Harvest}

/-- Without an error every block is visited. -/
theorem map_fst_passVisits (h : renderAll o blocks ledger = (.ok harvest, final))
    (clean : harvest.errors = []) : (passVisits o blocks ledger).map Prod.fst = blocks := by
  induction blocks generalizing ledger harvest with
  | nil => rfl
  | cons b rest ih =>
      rcases hb : b.renderTop o ledger with ⟨error | line, mid⟩
      · cases policy : o.errorPolicy with
        | abort => simp [renderAll, hb, policy] at h
        | comment =>
            obtain ⟨tail, -, rfl⟩ := (renderAll_cons_eq_ok_of_error policy hb).mp h
            exact absurd clean (List.cons_ne_nil _ _)
      · obtain ⟨tail, hrest, rfl⟩ := (renderAll_cons_eq_ok_of_ok hb).mp h
        simp only [passVisits, hb, List.map_cons, ih hrest clean]

/-- A block that is visited stands at the top, and it does not fail. -/
theorem of_mem_passVisits {visit : Block × Ledger} (h : visit ∈ passVisits o blocks ledger) :
    visit.1 ∈ blocks ∧ ∃ line after, visit.1.renderTop o visit.2 = (.ok line, after) := by
  induction blocks generalizing ledger with
  | nil => exact absurd h List.not_mem_nil
  | cons b rest ih =>
      have later {mid : Ledger} (h : visit ∈ passVisits o rest mid) :=
        (ih h).imp_left (List.mem_cons_of_mem b)
      rcases hb : b.renderTop o ledger with ⟨error | line, mid⟩
      · cases policy : o.errorPolicy with
        | abort =>
            simp only [passVisits, hb, policy] at h
            exact absurd h List.not_mem_nil
        | comment =>
            simp only [passVisits, hb, policy] at h
            exact later h
      · simp only [passVisits, hb] at h
        rcases List.mem_cons.mp h with rfl | h
        · exact ⟨List.mem_cons_self, line, mid, hb⟩
        · exact later h

/-- Without an error every definition at the top is visited. It has asked for its name by then, and
it ends by defining its function. -/
theorem exists_visit_of_defines {b : Block} (mem : b ∈ blocks) (defines : b.node.Defines)
    (reachable : Reachable o.indent ledger) (h : renderAll o blocks ledger = (.ok harvest, final))
    (clean : harvest.errors = []) :
    ∃ own given first rest, (b, own) ∈ passVisits o blocks ledger ∧
      b.events o false own = first ++ rest ∧
      .name .procedureName (b.node.fieldText "NAME") given ∈ passEvents o blocks ledger ∧
      Finishes (b.routineName given) rest := by
  obtain ⟨⟨b, own⟩, hv, rfl⟩ := List.mem_map.mp (map_fst_passVisits h clean ▸ mem)
  obtain ⟨-, line, after, rendered⟩ := of_mem_passVisits hv
  obtain ⟨emitted, mid, render, -⟩ := Pass.andThen_eq_ok.mp rendered
  obtain ⟨-, given, first, rest, split, asked, finishes, -⟩ :=
    Block.events_definition defines (passVisits_reachable reachable _ hv) render
  exact ⟨own, given, first, rest, hv, split,
    mem_passEvents_of_visit hv (split ▸ List.mem_append_left rest asked), finishes⟩

/-- The keys of the routines of a pass, in the order of their blocks. -/
theorem keys_routines {names : Names} {visits : List (Block × Ledger)}
    (each : ∀ visit ∈ visits, if visit.1.DefinesHere names then
      ∃ code, Declares (visit.1.functionName names) code ∧
        visit.1.routines o visit.2 = [(definitionKey (visit.1.functionName names), code)]
      else visit.1.routines o visit.2 = []) :
    (visits.flatMap fun visit => visit.1.routines o visit.2).map Prod.fst =
      ((visits.map Prod.fst).filter fun b => b.DefinesHere names).map fun b =>
        definitionKey (b.functionName names) := by
  induction visits with
  | nil => rfl
  | cons visit rest ih =>
      obtain ⟨head, tail⟩ := List.forall_mem_cons.mp each
      rw [List.flatMap_cons, List.map_append, ih tail, List.map_cons]
      by_cases here : visit.1.DefinesHere names
      · rw [if_pos here] at head
        obtain ⟨code, -, routines⟩ := head
        rw [List.filter_cons_of_pos (by simpa using here), routines]
        rfl
      · rw [if_neg here] at head
        rw [List.filter_cons_of_neg (by simpa using here), head]
        rfl

end Pass

namespace Ledger
variable {indent : String} {ledger after : Ledger} {events : List Event} {key code : String}

theorem Step.keeps_key {e : Event} (h : Step indent ledger e after)
    (known : key ∈ Table.keys ledger.definitions.definitions) :
    key ∈ Table.keys after.definitions.definitions := by
  cases h with
  | name category raw => rwa [getName_definitions]
  | helper h =>
      rw [provide_definitions]
      split
      · exact known
      · exact Table.mem_keys_put known _ _
  | declare other code => exact Table.mem_keys_putNew known _ _
  | define other code => exact Table.mem_keys_put known _ _
  | temporary | require | clearWidgets | addWidget => exact known

/-- What is defined once is under its key in the end, by whatever code. -/
theorem Steps.mem_keys_of_define (h : Steps indent ledger events after)
    (defined : .define key code ∈ events) : key ∈ Table.keys after.definitions.definitions := by
  induction h with
  | refl => exact absurd defined List.not_mem_nil
  | cons head tail ih =>
      rcases List.mem_cons.mp defined with rfl | defined
      · cases head
        exact tail.keeps (fun step known => step.keeps_key known) (Table.mem_keys_put_self _ _ _)
      · exact ih defined

/-- Where no two routines have one key, the code of each is what is defined in the end. -/
theorem Steps.get?_routine {name : String} (h : Steps indent ledger events after)
    (distinct : ((events.filterMap Event.routine?).map Prod.fst).Nodup)
    (defined : .define (definitionKey name) code ∈ events) :
    after.definitions.definitions.get? (definitionKey name) = some code := by
  obtain ⟨earlier, later, rfl⟩ := List.append_of_mem defined
  refine h.last_definition fun code' again => ?_
  rw [List.filterMap_append, List.map_append, List.nodup_append] at distinct
  obtain ⟨fresh, -⟩ := List.nodup_cons.mp distinct.2.1
  exact fresh (List.mem_map.mpr ⟨_, Event.mem_routines.mpr again, rfl⟩)

end Ledger

/-! Keys of routines among the keys of a program. -/

/-- Is a key that of a routine? -/
def isRoutineKey (key : String) : Bool := key.toList.head? == some '%'

theorem isRoutineKey_iff {key : String} :
    isRoutineKey key = true ↔ ∃ name, key = definitionKey name := by
  have percent : "%".toList = ['%'] := String.toList_ofList
  constructor
  · intro h
    obtain ⟨rest, hrest⟩ : ∃ rest, key.toList = '%' :: rest :=
      List.head?_eq_some_iff.mp (beq_iff_eq.mp h)
    refine ⟨String.ofList rest, ?_⟩
    rw [← String.toList_inj, definitionKey, String.toList_append, percent, String.toList_ofList,
      hrest]
    rfl
  · rintro ⟨name, rfl⟩
    rw [isRoutineKey, definitionKey, String.toList_append, percent]
    rfl

/-- Entries that have just the keys of a list are as many as these exactly if no key is there
twice. -/
theorem length_eq_iff_nodup {entries : Table String} {keys : List String}
    (distinct : (Table.keys entries).Nodup)
    (same : ∀ key, key ∈ Table.keys entries ↔ key ∈ keys) :
    entries.length = keys.length ↔ keys.Nodup := by
  have keep : (Table.keys entries).Subperm keys :=
    List.subperm_of_subset distinct fun key hk => (same key).mp hk
  have counted : (Table.keys entries).length = entries.length := List.length_map Prod.fst
  rw [← counted]
  constructor
  · intro equal
    exact (keep.perm_of_length_le equal.ge).nodup distinct
  · intro nodup
    have back : keys.Subperm (Table.keys entries) :=
      List.subperm_of_subset nodup fun key hk => (same key).mpr hk
    exact Nat.le_antisymm keep.length_le back.length_le

/-- The routines of a program are those of the events of its pass. -/
theorem mem_keys_routines {o : Options} {w : Workspace} {final : Ledger} {key : String}
    (steps : Steps o.indent (Ledger.declareNames {} w.walk)
      (passEvents o w.orderedBlocks (Ledger.declareNames {} w.walk)) final) :
    key ∈ Table.keys (final.definitions.definitions.filter fun e => isRoutineKey e.1) ↔
      key ∈ ((passEvents o w.orderedBlocks (Ledger.declareNames {} w.walk)).filterMap
        Event.routine?).map Prod.fst := by
  constructor
  · intro mem
    obtain ⟨e, he, rfl⟩ := List.mem_map.mp mem
    obtain ⟨he, routine⟩ := List.mem_filter.mp he
    obtain ⟨name, hname⟩ := isRoutineKey_iff.mp routine
    have known : definitionKey name ∈ Table.keys final.definitions.definitions :=
      hname ▸ List.mem_map_of_mem he
    obtain ⟨code, defined⟩ := mem_passEvents_of_mem_keys steps known
    exact List.mem_map.mpr ⟨_, Event.mem_routines.mpr defined, hname.symm⟩
  · intro mem
    obtain ⟨⟨key, code⟩, he, rfl⟩ := List.mem_map.mp mem
    have defined := Event.mem_routines.mp he
    obtain ⟨visit, hv, own⟩ := exists_visit_of_mem_passEvents defined
    have reached := passVisits_reachable (reachable_declareNames o.indent w.walk) visit hv
    obtain ⟨name, hname, -⟩ := (Block.defines_routines reached own).2
    obtain ⟨entry, hentry, same⟩ := List.mem_map.mp (steps.mem_keys_of_define defined)
    have routine : isRoutineKey entry.1 = true := isRoutineKey_iff.mpr ⟨name, same.trans hname⟩
    exact List.mem_map.mpr ⟨entry, List.mem_filter.mpr ⟨hentry, routine⟩, same⟩

/-! Names of functions. -/

theorem Block.handlerEvent_cases (b : Block) :
    b.handlerEvent = "show" ∨ b.handlerEvent = "press" := by
  unfold handlerEvent
  split
  · exact .inl rfl
  · exact .inr rfl

section Names
variable {names : Names} {blocks : List Block}

/-- Two procedures have different names, and so have two handlers, if their raw names differ. -/
theorem Block.functionName_inj {a b : Block} {given given' : String}
    (unique : ∀ raw raw' given, names.lookup .procedureName raw = some given →
      names.lookup .procedureName raw' = some given → raw = raw')
    (ha : names.lookup .procedureName (a.node.fieldText "NAME") = some given)
    (hb : names.lookup .procedureName (b.node.fieldText "NAME") = some given')
    (sa : Names.isIdentifier given.toList = true) (sb : Names.isIdentifier given'.toList = true)
    (alike : a.node.definesHandler = b.node.definesHandler)
    (same : a.functionName names = b.functionName names) :
    a.node.fieldText "NAME" = b.node.fieldText "NAME" := by
  have equal : given = given' := by
    simp only [functionName, routineName, ha, hb, Option.getD_some, alike] at same
    split at same
    · exact handlerName_inj sa sb a.handlerEvent_cases b.handlerEvent_cases same
    · exact same
  exact unique _ _ given ha (equal ▸ hb)

/-- The functions of definitions have different names exactly if no procedure has the name of a
handler. -/
theorem nodup_keys_iff
    (distinct : ((blocks.filter fun b => b.node.Defines).map fun b =>
      b.node.fieldText "NAME").Nodup)
    (unique : ∀ raw raw' given, names.lookup .procedureName raw = some given →
      names.lookup .procedureName raw' = some given → raw = raw')
    (named : ∀ b ∈ blocks, b.node.Defines → ∃ given,
      names.lookup .procedureName (b.node.fieldText "NAME") = some given ∧
        Names.isIdentifier given.toList = true) :
    ((blocks.filter fun b => b.DefinesHere names).map fun b =>
        definitionKey (b.functionName names)).Nodup ↔
      ∀ p ∈ blocks.filter fun b => b.DefinesHere names,
        ∀ h ∈ blocks.filter fun b => b.DefinesHere names, p.node.definesHandler = false →
          h.node.definesHandler = true → p.functionName names ≠ h.functionName names := by
  have here : (blocks.filter fun b => b.DefinesHere names).Sublist
      (blocks.filter fun b => b.node.Defines) :=
    List.monotone_filter_right _ fun b hb => by simpa using (of_decide_eq_true hb).1
  constructor
  · intro nodup p hp h hh procedure handler same
    obtain rfl := List.inj_on_of_nodup_map nodup hp hh (congrArg definitionKey same)
    exact Bool.noConfusion (procedure.symm.trans handler)
  · intro apart
    refine ((List.Nodup.of_map _ distinct).sublist here).map_on ?_
    intro a ha b hb key
    have same : a.functionName names = b.functionName names := definitionKey_injective key
    have alike : a.node.definesHandler = b.node.definesHandler := by
      cases handlerA : a.node.definesHandler <;> cases handlerB : b.node.definesHandler
      · rfl
      · exact absurd same (apart a ha b hb handlerA handlerB)
      · exact absurd same.symm (apart b hb a ha handlerB handlerA)
      · rfl
    have definition {b : Block} (hb : b ∈ blocks.filter fun b => b.DefinesHere names) :
        b ∈ blocks ∧ b.node.Defines := by
      obtain ⟨mem, defines⟩ := List.mem_filter.mp hb
      exact ⟨mem, (of_decide_eq_true defines).1⟩
    obtain ⟨given, lookupA, spelledA⟩ := named a (definition ha).1 (definition ha).2
    obtain ⟨given', lookupB, spelledB⟩ := named b (definition hb).1 (definition hb).2
    have raw := Block.functionName_inj unique lookupA lookupB spelledA spelledB alike same
    exact List.inj_on_of_nodup_map distinct (here.subset ha) (here.subset hb) raw

end Names

/-- If definitions stand only at the top, those that are not disabled under different names, and
nothing fails, then each one puts the code of its function among the definitions, unless that is
the function of a module. There are as many routines in the program as definitions exactly if no
procedure has the name of a handler; then each of them is defined by its own code. -/
theorem generate_routines (g : Generator) (w : Workspace)
    (top : ∀ b ∈ w.orderedBlocks, ∀ n ∈ b.walk.tail, ¬ n.Defines)
    (distinct : ((w.orderedBlocks.filter fun b => b.node.Defines).map fun b =>
      b.node.fieldText "NAME").Nodup)
    {program : Program} (success : (g.generate w).1 = .ok program)
    (clean : program.errors = []) :
    let names := (g.generate w).2.ledger.names
    let definitions := w.orderedBlocks.filter fun b => b.DefinesHere names
    let apart := ∀ p ∈ definitions, ∀ h ∈ definitions, p.node.definesHandler = false →
      h.node.definesHandler = true → p.functionName names ≠ h.functionName names
    ((program.definitions.filter fun e => isRoutineKey e.1).length = definitions.length ↔ apart) ∧
    ∀ b ∈ definitions, ∃ ledger code,
      (b, ledger) ∈ passVisits g.options w.orderedBlocks (Ledger.declareNames {} w.walk) ∧
      b.routines g.options ledger = [(definitionKey (b.functionName names), code)] ∧
      Declares (b.functionName names) code ∧
      (apart → program.definitions.get? (definitionKey (b.functionName names)) = some code) := by
  obtain ⟨harvest, final, run, rfl, hfinal⟩ := g.generate_eq_ok success
  rw [hfinal]
  intro names definitions apart
  let start := Ledger.declareNames {} w.walk
  let visits := passVisits g.options w.orderedBlocks start
  let events := passEvents g.options w.orderedBlocks start
  have reachable : Reachable g.options.indent start := reachable_declareNames g.options.indent w.walk
  have steps : Steps g.options.indent start events final := steps_renderAll run
  have coherent : Coherent events final := reachable.coherent.steps steps
  have visited : visits.map Prod.fst = w.orderedBlocks := map_fst_passVisits run clean
  have mem_top {visit : Block × Ledger} (hv : visit ∈ visits) : visit.1 ∈ w.orderedBlocks :=
    visited ▸ List.mem_map_of_mem hv
  have agree {visit : Block × Ledger} (hv : visit ∈ visits) :
      names.Agree (visit.1.events g.options false visit.2) := fun _ _ _ he =>
    coherent.named (mem_passEvents_of_visit hv he)
  have each : ∀ visit ∈ visits, if visit.1.DefinesHere names then
      ∃ code, Declares (visit.1.functionName names) code ∧
        visit.1.routines g.options visit.2 = [(definitionKey (visit.1.functionName names), code)]
      else visit.1.routines g.options visit.2 = [] := by
    intro visit hv
    have reached := passVisits_reachable reachable visit hv
    have alone := top visit.1 (mem_top hv)
    by_cases defines : visit.1.node.Defines
    · obtain ⟨-, line, after, rendered⟩ := of_mem_passVisits hv
      exact Block.routines_of_defines defines alone reached rendered (agree hv)
    · rw [if_neg fun here => defines here.1]
      refine Block.routines_of_not_defines reached fun n hn => ?_
      rw [Block.walk_eq] at hn alone
      rcases List.mem_cons.mp hn with rfl | hn
      · exact defines
      · exact alone n hn
  have keys : (events.filterMap Event.routine?).map Prod.fst =
      definitions.map fun b => definitionKey (b.functionName names) := by
    have listed := keys_routines each
    rw [visited] at listed
    rw [← listed]
    simp only [events, passEvents_eq, List.filterMap_flatMap, visits, start]
    rfl
  have named : ∀ b ∈ w.orderedBlocks, b.node.Defines → ∃ given,
      names.lookup .procedureName (b.node.fieldText "NAME") = some given ∧
        Names.isIdentifier given.toList = true := by
    intro b hb defines
    obtain ⟨-, given, -, -, -, -, asked, -⟩ :=
      exists_visit_of_defines hb defines reachable run clean
    have known := coherent.named asked
    exact ⟨given, known, coherent.spelled (.entry known)⟩
  have unique : ∀ raw raw' given, names.lookup .procedureName raw = some given →
      names.lookup .procedureName raw' = some given → raw = raw' := fun raw raw' given h h' =>
    (Owner.entry.inj (coherent.unique (.entry h) (.entry h'))).2
  have nodup : (definitions.map fun b => definitionKey (b.functionName names)).Nodup ↔ apart :=
    nodup_keys_iff distinct unique named
  constructor
  · let entries := final.definitions.definitions.filter fun e => isRoutineKey e.1
    have distinctKeys : (Table.keys entries).Nodup :=
      (reachable.of_steps steps).nodup_keys.sublist (List.filter_sublist.map Prod.fst)
    have same : ∀ key, key ∈ Table.keys entries ↔
        key ∈ definitions.map fun b => definitionKey (b.functionName names) := fun key =>
      keys ▸ mem_keys_routines steps
    have counted := length_eq_iff_nodup distinctKeys same
    rw [List.length_map] at counted
    exact counted.trans nodup
  · intro b hb
    obtain ⟨mem, here⟩ := List.mem_filter.mp hb
    obtain ⟨⟨b, ledger⟩, hv, rfl⟩ := List.mem_map.mp (visited ▸ mem)
    have own := each _ hv
    rw [if_pos (of_decide_eq_true here)] at own
    obtain ⟨code, declares, routines⟩ := own
    refine ⟨ledger, code, hv, routines, declares, fun free => ?_⟩
    have defined : (definitionKey (b.functionName names), code) ∈ b.routines g.options ledger := by
      rw [routines]
      exact List.mem_singleton_self _
    exact steps.get?_routine (keys ▸ nodup.mpr free)
      (mem_passEvents_of_visit hv (Event.mem_routines.mp defined))

/-- The definition of a procedure that does nothing. -/
def emptyProcedure (name : String) : Block :=
  { node := { id := "p", kindName := "procedures_defnoreturn", fields := [("NAME", name)] } }

/-- The definition of a handler of a button that does nothing. -/
def emptyHandler (name : String) : Block :=
  { node := { id := "h", kindName := "widgets_defnoreturn", fields := [("NAME", name)] } }

theorem generate_routines_counter :
    let g : Generator := { options := {} }
    let w : Workspace := { blocks := [emptyProcedure "count", emptyHandler "counter"] }
    ∃ program, (g.generate w).1 = .ok program ∧ program.errors = [] ∧
      (program.definitions.filter fun e => isRoutineKey e.1).length = 2 := by
  intro g w
  have run : (g.generate w).1.toOption.any (fun p => p.errors.isEmpty) = true := by
    decide +kernel
  obtain ⟨program, success, clean⟩ := exists_ok_of_any run
  obtain ⟨count, -⟩ := generate_routines g w (by decide +kernel) (by decide +kernel) success
    (List.isEmpty_iff.mp clean)
  have apart : ∀ p ∈ w.orderedBlocks.filter fun b => b.DefinesHere (g.generate w).2.ledger.names,
      ∀ h ∈ w.orderedBlocks.filter fun b => b.DefinesHere (g.generate w).2.ledger.names,
        p.node.definesHandler = false → h.node.definesHandler = true →
          p.functionName (g.generate w).2.ledger.names ≠
            h.functionName (g.generate w).2.ledger.names := by
    decide +kernel
  refine ⟨program, success, List.isEmpty_iff.mp clean, (count.mpr apart).trans ?_⟩
  decide +kernel

/-- If a procedure has the name of a handler, one of the two is lost. -/
theorem generate_overwrites :
    let w : Workspace := { blocks := [emptyProcedure "on_counter_press", emptyHandler "counter"] }
    (∀ b ∈ w.orderedBlocks, ∀ n ∈ b.walk.tail, ¬ n.Defines) ∧
      ((w.orderedBlocks.filter fun b => b.node.Defines).map fun b =>
        b.node.fieldText "NAME") = ["counter", "on_counter_press"] ∧
      ∃ program, generate {} w = .ok program ∧ program.errors = [] ∧
        Table.keys program.definitions = ["%on_counter_press"] := by
  intro w
  have run : (generate {} w).toOption.any (fun p =>
      p.errors.isEmpty && p.definitions.keys == ["%on_counter_press"]) = true := by
    decide +kernel
  obtain ⟨program, success, checked⟩ := exists_ok_of_any run
  obtain ⟨clean, keys⟩ := Bool.and_eq_true_iff.mp checked
  exact ⟨by decide +kernel, by decide +kernel, program, success, List.isEmpty_iff.mp clean,
    eq_of_beq keys⟩

end BlockScript
