import BlockScript.Proofs.Generator.Routines
import BlockScript.Proofs.Rendering.Named
import BlockScript.Proofs.Names.FirstCome

/-! # Declared variables

The variables that blocks name are declared in a walk over all blocks, before any block is rendered.
A block that should name a variable and does not is rendered as if the name were empty, which is not
declared on its account. -/

namespace BlockScript

open Ledger

/-- The code of a block that reads or writes a variable. -/
inductive Emitted.Uses (target : String) : Emitted → Prop
  | read : Uses target (.value target .atomic)
  | write (value : String) : Uses target (.statement (target ++ " = " ++ value ++ ";\n"))
  | change (delta : String) :
      Uses target (.statement (target ++ " = (" ++ target ++ " is num ? " ++ target ++ " : 0) + " ++
        delta ++ ";\n"))
  | append (text : String) :
      Uses target (.statement (target ++ " = [" ++ target ++ ", " ++ text ++ "].join();\n"))

/-- Told which names to use, a block uses the one for the text of its `VAR` field. -/
theorem Kind.uses_variable {answer : NameCategory → String → String} {o : Options}
    {s : Surroundings} {n : Node} {ledger after : Ledger} {emitted : Emitted} {kind : Kind}
    (uses : kind.usesVariableField = true)
    (run : (kind.script o n).runNamed answer o s ledger = (.ok emitted, after)) :
    emitted.Uses (answer .variableName (n.fieldText "VAR")) := by
  have result {own : Emitted} {mid : Ledger} (run : Pass.pure own mid = (.ok emitted, after)) :
      own = emitted :=
    Except.ok.inj (Prod.mk.inj run).1
  cases kind with
  | variablesGet | variablesGetDynamic => exact result run ▸ .read
  | variablesSet | variablesSetDynamic =>
      obtain ⟨value, mid, -, run⟩ := Pass.andThen_eq_ok.mp run
      exact result run ▸ .write _
  | mathChange =>
      obtain ⟨delta, mid, -, run⟩ := Pass.andThen_eq_ok.mp run
      exact result run ▸ .change _
  | textAppend =>
      obtain ⟨text, mid, -, run⟩ := Pass.andThen_eq_ok.mp run
      exact result run ▸ .append _
  | _ => simp [usesVariableField] at uses

/-- The name of a variable that a block uses is listed if the block names it, and otherwise only if
some block names the empty one. -/
theorem fieldText_mem_variableNames_iff {nodes : List Node} {n : Node} (hn : n ∈ nodes)
    (uses : n.usesVariable = true) :
    n.fieldText "VAR" ∈ variableNames nodes ↔
      (n.field "VAR").isSome = true ∨ ∃ m ∈ nodes, m.namedVariable = some "" := by
  cases hf : n.field "VAR" with
  | some raw =>
      have listed : raw ∈ variableNames nodes := mem_variableNames.mpr ⟨n, hn, by
        rw [Node.namedVariable, if_pos uses, hf]⟩
      simp [Node.fieldText, hf, listed]
  | none => simp [Node.fieldText, hf, mem_variableNames]

/-! The declaration among the definitions. -/

theorem Helper.key_ne_variablesKey (h : Helper) : h.key ≠ variablesKey := by
  cases h <;> decide

/-- The declaration of the variables stays as it is while blocks are rendered. -/
theorem passEvents_spare_variables {o : Options} {blocks : List Block} {ledger : Ledger}
    (reachable : Reachable o.indent ledger) :
    ∀ e ∈ passEvents o blocks ledger, e.writes? ≠ some variablesKey := by
  intro e he writes
  obtain ⟨visit, hv, he⟩ := exists_visit_of_mem_passEvents he
  have reachable := passVisits_reachable reachable visit hv
  cases e with
  | helper h given => exact h.key_ne_variablesKey (Option.some.inj writes)
  | declare key code => exact Block.declares_nothing reachable he
  | define key code =>
      obtain ⟨name, rfl, -⟩ := (Block.defines_routines reachable he).2
      exact Template.definitionKey_ne_variablesKey name (Option.some.inj writes)
  | _ => simp [Event.writes?] at writes

theorem Names.answer_eq {names : Names} {category : NameCategory} {raw given : String}
    (known : names.lookup category raw = some given) : names.answer category raw = given := by
  rw [answer, known, Option.getD_some]

namespace Ledger
variable {category : NameCategory} {raw given : String}

/-- A name that is known is the answer for one raw name only. -/
theorem Coherent.eq_of_answer_eq {ledger : Ledger} {events : List Event} {raw' : String}
    (coherent : Coherent events ledger) (known : ledger.names.lookup category raw = some given)
    (same : ledger.names.answer category raw = ledger.names.answer category raw') :
    raw = raw' := by
  rw [Names.answer_eq known] at same
  have owns : Owns events ledger given (.entry category raw) := .entry known
  cases other : ledger.names.lookup category raw' with
  | none =>
      -- The answer for a name that is not known is empty, and so no identifier.
      rw [Names.answer, other, Option.getD_none] at same
      have spelled := coherent.spelled owns
      rw [same] at spelled
      exact absurd spelled (by decide)
  | some given' =>
      rw [Names.answer_eq other] at same
      subst same
      exact (Owner.entry.inj (coherent.unique owns (.entry other))).2

@[simp] theorem getNames_definitions (ledger : Ledger) (category : NameCategory)
    (raws : List String) : (ledger.getNames category raws).2.definitions = ledger.definitions := by
  induction raws generalizing ledger with
  | nil => rfl
  | cons raw rest ih => exact (ih _).trans (getName_definitions ledger category raw)

theorem get?_declareNames (nodes : List Node) :
    let declared := (getNames {} .variableName (variableNames nodes)).1
    (declareNames {} nodes).definitions.definitions.get? variablesKey =
      if declared = [] then none else some ("var " ++ ", ".intercalate declared ++ ";") := by
  intro declared
  let second := (getNames {} .variableName (variableNames nodes)).2.getNames .procedureName
    (definedNames nodes)
  have empty : second.2.definitions = {} := by
    rw [getNames_definitions, getNames_definitions]
  change Table.get? (if declared.isEmpty then second.2
    else second.2.addDefinition _ _).definitions.definitions variablesKey = _
  simp only [List.isEmpty_iff]
  split
  · rw [empty]
    rfl
  · simp only [addDefinition, Definitions.addDefinition, empty]
    rfl

/-- Names that are given out for variables are known when blocks are rendered. -/
theorem lookup_declareNames {nodes : List Node}
    (known : (getNames {} .variableName (variableNames nodes)).2.names.lookup category raw =
      some given) :
    (declareNames {} nodes).names.lookup category raw = some given := by
  rw [names_declareNames]
  exact lookup_getNames_of_some known .procedureName _

/-- Names that are given out in a row are the answers of all names that know them. -/
theorem getNames_fst {names : Names} (ledger : Ledger) (raws : List String)
    (kept : ∀ {raw given}, (ledger.getNames category raws).2.names.lookup category raw =
      some given → names.lookup category raw = some given) :
    (ledger.getNames category raws).1 = raws.map (names.answer category) := by
  induction raws generalizing ledger with
  | nil => rfl
  | cons raw rest ih =>
      have known : (ledger.getName category raw).2.names.lookup category raw =
          some (ledger.getName category raw).1 :=
        Names.lookup_get ledger.names category raw
      have head : names.answer category raw = (ledger.getName category raw).1 :=
        Names.answer_eq (kept (lookup_getNames_of_some known category rest))
      rw [List.map_cons, head, ← ih (ledger.getName category raw).2 kept]
      rfl

end Ledger

/-- The variables of a workspace, each under its name, are what the program declares, in the order
in which blocks name them first. A block without an error is rendered as if it were told the names,
and a variable that is used in it is declared exactly if the block that uses it names it, or some
other block names the empty one. -/
theorem generate_declares (g : Generator) (w : Workspace) {program : Program}
    (success : (g.generate w).1 = .ok program) :
    let answer := (g.generate w).2.ledger.names.answer
    let declared := ((w.walk.filterMap Node.namedVariable).eraseDups).map (answer .variableName)
    (program.definitions.get? variablesKey =
      if declared = [] then none else some ("var " ++ ", ".intercalate declared ++ ";")) ∧
    declared.Nodup ∧
    ∀ visit ∈ passVisits g.options w.orderedBlocks (declareNames {} w.walk),
      visit.1.renderTopNamed answer g.options visit.2 = visit.1.renderTop g.options visit.2 ∧
      ∀ n ∈ visit.1.walk, ∀ kind, Kind.ofTypeName? n.kindName = some kind →
        kind.usesVariableField = true →
          let target := answer .variableName (n.fieldText "VAR")
          (∀ s ledger emitted after,
            (kind.script g.options n).runNamed answer g.options s ledger = (.ok emitted, after) →
              emitted.Uses target) ∧
          (target ∈ declared ↔
            (n.field "VAR").isSome = true ∨ ∃ m ∈ w.walk, m.namedVariable = some "") := by
  obtain ⟨harvest, final, run, rfl, hfinal⟩ := g.generate_eq_ok success
  rw [hfinal, ← variableNames_eq]
  intro answer declared
  let start := declareNames {} w.walk
  let events := passEvents g.options w.orderedBlocks start
  have reachable : Reachable g.options.indent start :=
    reachable_declareNames g.options.indent w.walk
  have steps : Steps g.options.indent start events final := steps_renderAll run
  have coherent : Coherent events final := reachable.coherent.steps steps
  have kept {category : NameCategory} {raw given : String}
      (known : (getNames {} .variableName (variableNames w.walk)).2.names.lookup category raw =
        some given) : final.names.lookup category raw = some given :=
    steps.keeps (fun step holds => step.keeps_lookup holds) (lookup_declareNames known)
  have given_out : (getNames {} .variableName (variableNames w.walk)).1 = declared :=
    getNames_fst {} _ kept
  have known {raw : String} (mem : raw ∈ variableNames w.walk) :
      ∃ given, final.names.lookup .variableName raw = some given := by
    obtain ⟨given, first⟩ : ∃ given,
        (getNames {} .variableName (variableNames w.walk)).2.names.lookup .variableName raw =
          some given := exists_lookup_getNames mem {}
    exact ⟨given, kept first⟩
  have alone {raw raw' : String} (mem : raw ∈ variableNames w.walk)
      (same : answer .variableName raw = answer .variableName raw') : raw = raw' := by
    obtain ⟨given, last⟩ := known mem
    exact coherent.eq_of_answer_eq last same
  have listed {raw : String} :
      answer .variableName raw ∈ declared ↔ raw ∈ variableNames w.walk := by
    constructor
    · intro mem
      obtain ⟨other, mem, same⟩ := List.mem_map.mp mem
      exact alone mem same ▸ mem
    · exact fun mem => List.mem_map_of_mem mem
  refine ⟨?list, ?distinct, fun visit hv => ⟨?same, fun n hn kind hk uses => ⟨?code, ?target⟩⟩⟩
  case list =>
    rw [steps.get?_of_others (passEvents_spare_variables reachable), ← given_out]
    exact get?_declareNames w.walk
  case distinct =>
    have once : (variableNames w.walk).Nodup := variableNames_eq w.walk ▸ nodup_eraseDups _
    exact once.map_on fun raw mem _ _ same => alone mem same
  case same =>
    refine visit.1.renderTopNamed_eq visit.2 fun category raw given asked => ?_
    exact Names.answer_eq (coherent.named (mem_passEvents_of_visit hv asked))
  case code => exact fun s ledger emitted after run => kind.uses_variable uses run
  case target =>
    have mem : n ∈ w.walk := List.mem_flatMap.mpr ⟨visit.1, (of_mem_passVisits hv).1, hn⟩
    rw [listed]
    exact fieldText_mem_variableNames_iff mem (by simp [Node.usesVariable, hk, uses])

/-- A block that prints a variable. -/
def printingVariable (fields : Table String) : Block :=
  { node := { id := "p", kindName := "text_print" }
    values := [("TEXT", { node := { id := "v", kindName := "variables_get", fields } })] }

theorem generate_declares_twice :
    let g : Generator := { options := {} }
    let w : Workspace :=
      { blocks := ["my size", "b", "my size"].map fun raw => printingVariable [("VAR", raw)] }
    ∃ program, (g.generate w).1 = .ok program ∧
      program.definitions.get? variablesKey = some "var my_size, b;" := by
  intro g w
  have run : (g.generate w).1.toOption.any (fun p => p.errors.isEmpty) = true := by
    decide +kernel
  obtain ⟨program, success, -⟩ := exists_ok_of_any run
  obtain ⟨list, -⟩ := generate_declares g w success
  refine ⟨program, success, list.trans ?_⟩
  decide +kernel

/-- A block that should name a variable and does not uses one that is not declared. -/
theorem generate_undeclared :
    let g : Generator := { options := {} }
    let w : Workspace := { blocks := [printingVariable []] }
    (∃ n ∈ w.walk, n.usesVariable = true ∧ n.field "VAR" = none) ∧
      (g.generate w).2.ledger.names.answer .variableName "" = "unnamed" ∧
        (g.generate w).1 = .ok { body := "print(unnamed);\n" } := by
  decide +kernel

end BlockScript
