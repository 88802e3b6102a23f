import BlockScript.Proofs.Generator.Naming
import BlockScript.Proofs.Rendering.Named
import BlockScript.Proofs.Generator.Variables
import BlockScript.Proofs.Rendering.Visits
import BlockScript.Proofs.Text.Replacement

/-! # Identifiers in the code

Each block that names a variable or a procedure spells it in its code as the names of the pass have
it: the blocks that read and write variables, the definitions of procedures and of handlers with
their parameters, and the calls. So whatever name a call and a definition agree on in the blocks,
they agree on in the code, wherever in the pass each of them is rendered. -/

namespace BlockScript

open Ledger Template
open Relation (ReflTransGen)

/-- The code of a block that calls a procedure. -/
inductive Emitted.Calls (routine : String) : Emitted → Prop
  | value (arguments : String) :
      Calls routine (.value (routine ++ "(" ++ arguments ++ ")") .unaryPostfix)
  | statement (arguments : String) :
      Calls routine (.statement (routine ++ "(" ++ arguments ++ ")" ++ ";\n"))

/-- The code of a block that calls a function which may fail. -/
inductive Emitted.Attempts (function : String) : Emitted → Prop
  | value (arguments : String) :
      Attempts function (.value (function ++ "(" ++ arguments ++ ")" ++ " ?") .unaryPostfix)
  | reference (arguments : String) :
      Attempts function (.value ("&" ++ (function ++ "(" ++ arguments ++ ")") ++ " ?") .unaryPrefix)
  | statement (arguments : String) :
      Attempts function (.statement (function ++ "(" ++ arguments ++ ")" ++ " ? ;\n"))

namespace Names
variable (names : Names)

/-- Under its key a function is declared by its name, behind which stand the names of its
parameters, each with a mark. -/
def Declares (n : Node) (keywords : List String) (mark function : String) (ledger : Ledger) : Prop :=
  ∃ (parameters : List String) (before keyword rest : String),
    n.mutation.args.Forall₂ (fun raw given => names.lookup .variableName raw = some given)
      parameters ∧
    keyword ∈ keywords ∧
    ledger.definitions.definitions.get? ("%" ++ function) =
      some (before ++ keyword ++ function ++ "(" ++ ", ".intercalate (parameters.map (· ++ mark)) ++
        ")" ++ rest)

/-- What a block leaves, as code and among the definitions, spells the names that the block has in
its fields and its mutation. -/
structure Spells (kind : Kind) (n : Node) (own : Emitted) (after : Ledger) : Prop where
  /-- Blocks that read or write a variable. -/
  uses : kind ∈ [.variablesGet, .variablesGetDynamic, .variablesSet, .variablesSetDynamic,
      .mathChange, .textAppend] → ∃ target,
    names.lookup .variableName ((n.field "VAR").getD "") = some target ∧ own.Uses target
  /-- Definitions of procedures. -/
  defines : kind ∈ [.proceduresDefReturn, .proceduresDefNoReturn] → ∃ routine,
    names.lookup .procedureName ((n.field "NAME").getD "") = some routine ∧
      names.Declares n ["void ", "dynamic "] "" routine after
  /-- Calls of procedures. -/
  calls : kind ∈ [.proceduresCallReturn, .proceduresCallNoReturn] → ∃ routine,
    names.lookup .procedureName ((n.field "NAME").getD "") = some routine ∧ own.Calls routine
  /-- Definitions of handlers, unless they are functions of a module. -/
  serves : kind ∈ [.widgetsDefReturn, .widgetsDefNoReturn] → ∃ widget event function,
    names.lookup .procedureName ((n.field "NAME").getD "") = some widget ∧
      event ∈ ["show", "press"] ∧
      Text.IsReplacement "__" "::" ("on_" ++ widget ++ "_" ++ event) function ∧
      ("::".toList <:+: function.toList ∨ names.Declares n ["fn "] ": _" function after)
  /-- Calls of functions of a widget or a module. -/
  attempts : kind ∈ [.widgetsCallReturn, .widgetsCallNoReturn] → ∃ widget function,
    names.lookup .procedureName ((n.field "NAME").getD "") = some widget ∧
      Text.IsReplacement "__" "::" widget function ∧ own.Attempts function

end Names

/-- The names hold each one that some events gave out. -/
def Names.Hold (names : Names) (events : List Event) : Prop :=
  ∀ {category raw given}, .name category raw given ∈ events →
    names.lookup category raw = some given

theorem Names.Hold.of_subset {names : Names} {events more : List Event} (hold : names.Hold more)
    (part : events ⊆ more) : names.Hold events := fun asked => hold (part asked)

section Runs
variable {o : Options} {s : Surroundings} {r : Records} {n : Node} {ledger after : Ledger}
  {own : Emitted} {events : List Event} {kind : Kind} {names : Names}

theorem spells_variable (hold : names.Hold events)
    (uses : kind ∈ [.variablesGet, .variablesGetDynamic, .variablesSet, .variablesSetDynamic,
      .mathChange, .textAppend])
    (runs : (kind.script o n).Runs o s r ledger own after events) : ∃ target,
    names.lookup .variableName ((n.field "VAR").getD "") = some target ∧ own.Uses target := by
  have reads (runs : (variablesGet n).Runs o s r ledger own after events) : ∃ target,
      names.lookup .variableName ((n.field "VAR").getD "") = some target ∧ own.Uses target := by
    obtain ⟨target, _, _, _, asked, left, rfl⟩ := runs.of_bind
    obtain ⟨-, rfl⟩ := asked.of_name
    obtain ⟨rfl, -⟩ := left.of_done
    exact ⟨target, hold List.mem_cons_self, .read⟩
  have writes (runs : (variablesSet n).Runs o s r ledger own after events) : ∃ target,
      names.lookup .variableName ((n.field "VAR").getD "") = some target ∧ own.Uses target := by
    obtain ⟨value, _, first, _, -, more, rfl⟩ := runs.of_bind
    obtain ⟨target, _, _, _, asked, left, rfl⟩ := more.of_bind
    obtain ⟨-, rfl⟩ := asked.of_name
    obtain ⟨rfl, -⟩ := left.of_done
    exact ⟨target, hold (List.mem_append_right first List.mem_cons_self), .write value⟩
  simp only [List.mem_cons, List.not_mem_nil, or_false] at uses
  rcases uses with rfl | rfl | rfl | rfl | rfl | rfl
  case inl | inr.inl => exact reads runs
  case inr.inr.inl | inr.inr.inr.inl => exact writes runs
  case inr.inr.inr.inr.inl =>
    have runs : (mathChange n).Runs o s r ledger own after events := runs
    obtain ⟨delta, _, first, _, -, more, rfl⟩ := runs.of_bind
    obtain ⟨target, _, _, _, asked, left, rfl⟩ := more.of_bind
    obtain ⟨-, rfl⟩ := asked.of_name
    obtain ⟨rfl, -⟩ := left.of_done
    exact ⟨target, hold (List.mem_append_right first List.mem_cons_self), .change delta⟩
  case inr.inr.inr.inr.inr =>
    have runs : (textAppend n).Runs o s r ledger own after events := runs
    obtain ⟨target, _, _, _, asked, more, rfl⟩ := runs.of_bind
    obtain ⟨text, _, _, _, -, left, rfl⟩ := more.of_bind
    obtain ⟨-, rfl⟩ := asked.of_name
    obtain ⟨rfl, -⟩ := left.of_done
    exact ⟨target, hold List.mem_cons_self, .append text⟩

/-- A definition declares its function as its code does. -/
theorem declares_of_defineRoutine {keywords parameters : List String}
    {function code mark : String} (before keyword rest : String)
    (runs : (defineRoutine function code).Runs o s r ledger own after events)
    (known : n.mutation.args.Forall₂
      (fun raw given => names.lookup .variableName raw = some given) parameters)
    (listed : keyword ∈ keywords)
    (shape : code = before ++ keyword ++ function ++ "(" ++
      ", ".intercalate (parameters.map (· ++ mark)) ++ ")" ++ rest) :
    names.Declares n keywords mark function after := by
  obtain ⟨-, comments, -, rfl⟩ := runs.of_defineRoutine
  refine ⟨parameters, comments ++ before, keyword, rest, known, listed,
    (Table.get?_put_self ..).trans (congrArg some ?_)⟩
  rw [shape]
  simp only [String.append_assoc]

theorem spells_proceduresDefine (hold : names.Hold events)
    (runs : (proceduresDefine o n).Runs o s r ledger own after events) : ∃ routine,
    names.lookup .procedureName ((n.field "NAME").getD "") = some routine ∧
      names.Declares n ["void ", "dynamic "] "" routine after := by
  obtain ⟨routine, _, _, _, asked, afterName, rfl⟩ := runs.of_bind
  obtain ⟨body, _, second, _, -, afterBody, rfl⟩ := afterName.of_bind
  obtain ⟨result, _, third, _, -, afterResult, rfl⟩ := afterBody.of_bind
  obtain ⟨parameters, _, fourth, rest, listed, ending, rfl⟩ := afterResult.of_bind
  obtain ⟨-, rfl⟩ := asked.of_name
  have inside : fourth ⊆ second ++ (third ++ (fourth ++ rest)) :=
    List.subset_append_of_subset_right _ (List.subset_append_of_subset_right _
      (List.subset_append_left _ _))
  have known := listed.asked_variableNames.imp fun raw given asked =>
    hold (List.mem_append_right _ (inside asked))
  have closing : ") \x7b\n" = ")" ++ " \x7b\n" := by decide
  refine ⟨routine, hold List.mem_cons_self, ?_⟩
  cases result with
  | none =>
      refine declares_of_defineRoutine "" "void " ?rest ending known (by simp) ?code
      case code =>
        simp only [closing, String.append_assoc, String.empty_append, String.append_empty,
          List.map_id']
        rfl
  | some returned =>
      refine declares_of_defineRoutine "" "dynamic " ?more ending known (by simp) ?whole
      case whole =>
        simp only [closing, String.append_assoc, String.empty_append, String.append_empty,
          List.map_id']
        rfl

/-- A call starts with the name that the block gives to its procedure. -/
theorem spells_procedureCall {call : String} (hold : names.Hold events)
    (runs : (procedureCall n).Runs o s r ledger call after events) : ∃ routine arguments,
    names.lookup .procedureName ((n.field "NAME").getD "") = some routine ∧
      call = routine ++ "(" ++ arguments ++ ")" := by
  obtain ⟨routine, _, _, _, asked, more, rfl⟩ := runs.of_bind
  obtain ⟨values, _, _, _, -, left, rfl⟩ := more.of_bind
  obtain ⟨-, rfl⟩ := asked.of_name
  obtain ⟨rfl, -⟩ := left.of_done
  exact ⟨routine, _, hold List.mem_cons_self, rfl⟩

theorem spells_call (hold : names.Hold events)
    (calls : kind ∈ [.proceduresCallReturn, .proceduresCallNoReturn])
    (runs : (kind.script o n).Runs o s r ledger own after events) : ∃ routine,
    names.lookup .procedureName ((n.field "NAME").getD "") = some routine ∧ own.Calls routine := by
  simp only [List.mem_cons, List.not_mem_nil, or_false] at calls
  rcases calls with rfl | rfl
  · have runs : (proceduresCallReturn n).Runs o s r ledger own after events := runs
    obtain ⟨call, _, _, _, called, left, rfl⟩ := runs.of_bind
    obtain ⟨routine, arguments, known, rfl⟩ :=
      spells_procedureCall (hold.of_subset (List.subset_append_left _ _)) called
    obtain ⟨rfl, -⟩ := left.of_done
    exact ⟨routine, known, .value arguments⟩
  · have runs : (proceduresCallNoReturn n).Runs o s r ledger own after events := runs
    obtain ⟨call, _, _, _, called, left, rfl⟩ := runs.of_bind
    obtain ⟨routine, arguments, known, rfl⟩ :=
      spells_procedureCall (hold.of_subset (List.subset_append_left _ _)) called
    obtain ⟨rfl, -⟩ := left.of_done
    exact ⟨routine, known, .statement arguments⟩

/-- Two underscores in a row are all that a qualified name has otherwise. -/
theorem isReplacement_qualified (name : String) :
    Text.IsReplacement "__" "::" name (qualified name) :=
  Text.isReplacement_replaceAll (by decide) name "::"

theorem spells_widgetsDefine (hold : names.Hold events)
    (runs : (widgetsDefine o n).Runs o s r ledger own after events) :
    ∃ widget event function,
      names.lookup .procedureName ((n.field "NAME").getD "") = some widget ∧
        event ∈ ["show", "press"] ∧
        Text.IsReplacement "__" "::" ("on_" ++ widget ++ "_" ++ event) function ∧
        ("::".toList <:+: function.toList ∨ names.Declares n ["fn "] ": _" function after) := by
  obtain ⟨widget, _, _, _, asked, afterName, rfl⟩ := runs.of_bind
  obtain ⟨body, _, second, _, -, afterBody, rfl⟩ := afterName.of_bind
  obtain ⟨result, _, third, rest, -, ending, rfl⟩ := afterBody.of_bind
  obtain ⟨-, rfl⟩ := asked.of_name
  have event : (handlerHead widget result).1 ∈ ["show", "press"] := by
    cases result <;> simp [handlerHead]
  refine ⟨widget, _, handlerName widget (handlerHead widget result).1, hold List.mem_cons_self,
    event, isReplacement_qualified _, ?_⟩
  dsimp only at ending
  generalize handlerName widget (handlerHead widget result).1 = function at ending ⊢
  split at ending
  · next served => exact .inl ((Text.holdsText_iff _ _).mp served)
  · obtain ⟨parameters, _, fourth, rest, listed, definition, rfl⟩ := ending.of_bind
    have inside : fourth ⊆ second ++ (third ++ (fourth ++ rest)) :=
      List.subset_append_of_subset_right _ (List.subset_append_of_subset_right _
        (List.subset_append_left _ _))
    have known := listed.asked_variableNames.imp fun raw given asked =>
      hold (List.mem_append_right _ (inside asked))
    have literal : "\n#[infer_type]  //  Infer the missing types\nfn " =
        "\n#[infer_type]  //  Infer the missing types\n" ++ "fn " := by decide
    have closing : ") -> MynewtResult<" = ")" ++ " -> MynewtResult<" := by decide
    refine .inr (declares_of_defineRoutine ((handlerHead widget result).2.2 ++
      "\n#[infer_type]  //  Infer the missing types\n") "fn " ?rest definition known (by simp) ?code)
    case code =>
      simp only [literal, closing, String.append_assoc]
      rfl

theorem spells_widgetCall {function call : String} (hold : names.Hold events)
    (runs : (widgetCall n).Runs o s r ledger (function, call) after events) :
    ∃ widget arguments,
      names.lookup .procedureName ((n.field "NAME").getD "") = some widget ∧
        Text.IsReplacement "__" "::" widget function ∧ call = function ++ "(" ++ arguments ++ ")" := by
  obtain ⟨widget, _, _, _, asked, more, rfl⟩ := runs.of_bind
  obtain ⟨values, _, _, _, -, left, rfl⟩ := more.of_bind
  obtain ⟨-, rfl⟩ := asked.of_name
  obtain ⟨both, -⟩ := left.of_done
  obtain ⟨rfl, rfl⟩ := Prod.mk.inj both
  exact ⟨widget, _, hold List.mem_cons_self, isReplacement_qualified widget, rfl⟩

theorem spells_attempt (hold : names.Hold events)
    (attempts : kind ∈ [.widgetsCallReturn, .widgetsCallNoReturn])
    (runs : (kind.script o n).Runs o s r ledger own after events) : ∃ widget function,
    names.lookup .procedureName ((n.field "NAME").getD "") = some widget ∧
      Text.IsReplacement "__" "::" widget function ∧ own.Attempts function := by
  simp only [List.mem_cons, List.not_mem_nil, or_false] at attempts
  rcases attempts with rfl | rfl
  · have runs : (widgetsCallReturn n).Runs o s r ledger own after events := runs
    obtain ⟨⟨function, call⟩, _, _, _, called, left, rfl⟩ := runs.of_bind
    obtain ⟨widget, arguments, known, qualified, rfl⟩ :=
      spells_widgetCall (hold.of_subset (List.subset_append_left _ _)) called
    refine ⟨widget, function, known, qualified, ?_⟩
    dsimp only at left
    split at left
    · obtain ⟨rfl, -⟩ := left.of_done
      exact .reference arguments
    · obtain ⟨rfl, -⟩ := left.of_done
      exact .value arguments
  · have runs : (widgetsCallNoReturn n).Runs o s r ledger own after events := runs
    obtain ⟨⟨function, call⟩, _, _, _, called, left, rfl⟩ := runs.of_bind
    obtain ⟨widget, arguments, known, qualified, rfl⟩ :=
      spells_widgetCall (hold.of_subset (List.subset_append_left _ _)) called
    obtain ⟨rfl, -⟩ := left.of_done
    exact ⟨widget, function, known, qualified, .statement arguments⟩

/-- What a script leaves spells the names that it asked for. -/
theorem Kind.spells (hold : names.Hold events)
    (runs : (kind.script o n).Runs o s r ledger own after events) :
    names.Spells kind n own after where
  uses uses := spells_variable hold uses runs
  defines defines := by
    simp only [List.mem_cons, List.not_mem_nil, or_false] at defines
    rcases defines with rfl | rfl <;> exact spells_proceduresDefine hold runs
  calls calls := spells_call hold calls runs
  serves serves := by
    simp only [List.mem_cons, List.not_mem_nil, or_false] at serves
    rcases serves with rfl | rfl <;> exact spells_widgetsDefine hold runs
  attempts attempts := spells_attempt hold attempts runs

end Runs

/-! ### The names of a pass -/

/-- In a pass a block at the top that does not fail leads to a visit. -/
def PassVisits (o : Options) (blocks : List Block) (start : Ledger) (v : Visit) : Prop :=
  ∃ top ∈ passVisits o blocks start, ReflTransGen (Visit.Leads o) ⟨top.1, false, top.2⟩ v

section Pass
variable {o : Options} {blocks : List Block} {start : Ledger} {v : Visit} {kind : Kind}

/-- What is visited in a pass is rendered without an error. -/
theorem PassVisits.succeeds (visited : PassVisits o blocks start v) : v.Succeeds o := by
  obtain ⟨top, mem, path⟩ := visited
  obtain ⟨line, after, rendered⟩ := (of_mem_passVisits mem).2
  obtain ⟨emitted, mid, rendered, -⟩ := Pass.andThen_eq_ok.mp rendered
  exact Visit.succeeds_of_leads path ⟨.top, emitted, mid, rendered⟩

theorem PassVisits.events_subset (visited : PassVisits o blocks start v) :
    v.events o ⊆ passEvents o blocks start := by
  obtain ⟨top, mem, path⟩ := visited
  exact fun e inside => mem_passEvents_of_visit mem (Visit.events_subset_of_leads path inside)

/-- The events of a pass are the requests of the scripts of what it visits. -/
theorem mem_passEvents_iff {e : Event} : e ∈ passEvents o blocks start ↔
    ∃ v kind, PassVisits o blocks start v ∧ v.block.IsOn kind ∧ e ∈ v.requests o kind := by
  constructor
  · intro mem
    obtain ⟨top, hv, inside⟩ := exists_visit_of_mem_passEvents mem
    obtain ⟨v, kind, path, isOn, asked⟩ :=
      Visit.exists_request_of_event (v := ⟨top.1, false, top.2⟩) inside
    exact ⟨v, kind, ⟨top, hv, path⟩, isOn, asked⟩
  · rintro ⟨v, kind, visited, isOn, asked⟩
    exact visited.events_subset (Visit.requests_subset isOn asked)

/-- A visited block leaves something, and this spells the names that the pass ends with. -/
theorem PassVisits.spells {names : Names} (hold : names.Hold (passEvents o blocks start))
    (visited : PassVisits o blocks start v) (isOn : v.block.IsOn kind) :
    ∃ own after, v.block.own o kind v.ledger = (.ok own, after) ∧
      names.Spells kind v.block.node own after := by
  obtain ⟨own, after, events, runs, inside⟩ := visited.succeeds.exists_runs isOn
  have among := List.Subset.trans inside visited.events_subset
  exact ⟨own, after, runs.run, Kind.spells (hold.of_subset among) runs⟩

end Pass

/-- Every block that is rendered in a block at the top without an error leaves code that spells the
names which the ledger at the end of the pass has for the raw ones in its fields and its mutation, so
a definition and a call of a procedure agree if the blocks do. The whole is rendered as if each request
for a name were answered from that ledger. There different raw names have different names. Helpers and
temporaries, wherever scripts ask for them, have names of their own, which are not reserved. -/
theorem generate_names (g : Generator) (w : Workspace) :
    let start := Ledger.declareNames {} w.walk
    let events := passEvents g.options w.orderedBlocks start
    let visited := PassVisits g.options w.orderedBlocks start
    let names := (g.generate w).2.ledger.names
    (∀ e, e ∈ events ↔
      ∃ v kind, visited v ∧ v.block.IsOn kind ∧ e ∈ v.requests g.options kind) ∧
    (∀ v kind, visited v → v.block.IsOn kind → ∃ own after,
      v.block.own g.options kind v.ledger = (.ok own, after) ∧
        names.Spells kind v.block.node own after) ∧
    (∀ definition call kind kind', visited definition → definition.block.IsOn kind →
      kind ∈ [.proceduresDefReturn, .proceduresDefNoReturn] → visited call →
      call.block.IsOn kind' → kind' ∈ [.proceduresCallReturn, .proceduresCallNoReturn] →
      (definition.block.node.field "NAME").getD "" = (call.block.node.field "NAME").getD "" →
        ∃ routine left after called last,
          definition.block.own g.options kind definition.ledger = (.ok left, after) ∧
          names.Declares definition.block.node ["void ", "dynamic "] "" routine after ∧
          call.block.own g.options kind' call.ledger = (.ok called, last) ∧
          called.Calls routine) ∧
    (∀ visit ∈ passVisits g.options w.orderedBlocks start,
      visit.1.renderTopNamed names.answer g.options visit.2 =
        visit.1.renderTop g.options visit.2) ∧
    (∀ category raw given, .name category raw given ∈ events →
      names.lookup category raw = some given) ∧
    (∀ category raw category' raw' given, names.lookup category raw = some given →
      names.lookup category' raw' = some given → category = category' ∧ raw = raw') ∧
    (∀ h given, .helper h given ∈ events →
      given ∉ reservedWords ∧ (∀ category raw, names.lookup category raw ≠ some given) ∧
        .temporary given ∉ events ∧ ∀ h', .helper h' given ∈ events → h' = h) ∧
    (∀ (i : Nat) given, events[i]? = some (.temporary given) →
      given ∉ reservedWords ∧ (∀ category raw, names.lookup category raw ≠ some given) ∧
        (∀ h, .helper h given ∉ events) ∧
          ∀ j : Nat, events[j]? = some (.temporary given) → j = i) ∧
    (∀ raw given given', .name .procedureName raw given ∈ events →
      .name .procedureName raw given' ∈ events → given = given') := by
  intro start events visited names
  have coherent : Coherent events (g.generate w).2.ledger :=
    ((reachable_declareNames g.options.indent w.walk).coherent).renderAll g.options _
  -- A temporary is asked for by some event, counted from the first.
  have at_index {given : String} (h : .temporary given ∈ events) :
      ∃ i, Owns events (g.generate w).2.ledger given (.temporary i) := by
    obtain ⟨i, hi⟩ := List.mem_iff_getElem?.mp h
    exact ⟨i, .temporary hi⟩
  have hold : names.Hold events := coherent.named
  have spells {v : Visit} {kind : Kind} (inside : visited v) (isOn : v.block.IsOn kind) :=
    inside.spells hold isOn
  refine ⟨fun _ => mem_passEvents_iff, fun _ _ => spells, ?_, ?_, fun _ _ _ h => hold h,
    ?_, ?_, ?_, ?_⟩
  · intro definition call kind kind' inside isOn defines inside' isOn' calls same
    obtain ⟨left, after, run, spelled⟩ := spells inside isOn
    obtain ⟨called, last, run', spelled'⟩ := spells inside' isOn'
    obtain ⟨routine, known, declares⟩ := spelled.defines defines
    obtain ⟨other, known', form⟩ := spelled'.calls calls
    obtain rfl : routine = other := Option.some.inj (known.symm.trans (same ▸ known'))
    exact ⟨routine, left, after, called, last, run, declares, run', form⟩
  · intro visit hv
    apply visit.1.renderTopNamed_eq
    intro category raw given h
    have known := coherent.named
      (passEvents_eq g.options w.orderedBlocks start ▸ List.mem_flatMap.mpr ⟨visit, hv, h⟩)
    rw [Names.answer, known, Option.getD_some]
  · intro category raw category' raw' given h h'
    exact Owner.entry.inj (coherent.unique (.entry h) (.entry h'))
  · intro h given hm
    have owns : Owns events (g.generate w).2.ledger given (.helper h.key) :=
      .helper (coherent.helped hm)
    refine ⟨coherent.unreserved owns, ?_, ?_, ?_⟩
    · intro category raw hl
      exact Owner.noConfusion (coherent.unique owns (.entry hl))
    · intro ht
      obtain ⟨i, hi⟩ := at_index ht
      exact Owner.noConfusion (coherent.unique owns hi)
    · intro h' hm'
      have keys := coherent.unique (.helper (coherent.helped hm')) owns
      exact Helper.key_injective (Owner.helper.inj keys)
  · intro i given hi
    have owns : Owns events (g.generate w).2.ledger given (.temporary i) := .temporary hi
    refine ⟨coherent.unreserved owns, ?_, ?_, ?_⟩
    · intro category raw hl
      exact Owner.noConfusion (coherent.unique owns (.entry hl))
    · intro h hm
      exact Owner.noConfusion (coherent.unique owns (.helper (coherent.helped hm)))
    · intro j hj
      exact Owner.temporary.inj (coherent.unique (.temporary hj) owns)
  · intro raw given given' h h'
    have same := (coherent.named h).symm.trans (coherent.named h')
    exact Option.some.inj same

/-- A variable, a definition and a call under one raw name, which is reserved, with a block between
them that fails. -/
example :
    let block (kindName field : String) : Block :=
      { node := { id := kindName, kindName, fields := [(field, "go")] } }
    let w : Workspace :=
      { blocks := [block "variables_get" "VAR", block "procedures_defnoreturn" "NAME",
          block "unknown" "NAME", block "procedures_callnoreturn" "NAME"] }
    ((generate { errorPolicy := .comment } w).toOption.map fun p => (p.definitions, p.body)) =
      some ([("variables", "var go2;"), ("%go3", "void go3() \x7b\n\x7d")],
        "go3();\n\n// error: no code generator for block type 'unknown' (block unknown)\n\ngo2;\n") := by
  decide +kernel

end BlockScript
