import BlockScript.Proofs.Rendering.Runs
import BlockScript.Proofs.Template.TidyBlocks

/-! # Definitions of routines

The definition of a procedure or of a handler is rendered in two parts: first its name is asked
for, and its body and its result are rendered; then its code is defined under the name of its
function, unless that is a function of a module. -/

namespace BlockScript

open Template Ledger

/-- Does a block leave code at its place? It does unless it is disabled or a definition. -/
def Node.leavesCode (n : Node) : Bool :=
  !n.disabled && (Kind.ofTypeName? n.kindName).any fun kind => !kind.isProcedureDefinition

/-- The event that a handler serves: a label with a result is shown, a button is pressed. -/
def Block.handlerEvent (b : Block) : String :=
  if (b.value? "RETURN").any fun child => child.node.leavesCode then "show" else "press"

/-- Is a block of this kind the definition of a handler? -/
def Kind.definesHandler : Kind → Bool
  | .widgetsDefReturn | .widgetsDefNoReturn => true
  | _ => false

/-- Is a block the definition of a handler? -/
def Node.definesHandler (n : Node) : Bool :=
  (Kind.ofTypeName? n.kindName).any Kind.definesHandler

/-- The name of the function of a definition, from the name that it was given. -/
def Block.routineName (b : Block) (given : String) : String :=
  if b.node.definesHandler then handlerName given b.handlerEvent else given

/-- Code in which a function of some name is declared. -/
def Declares (name code : String) : Prop :=
  ∃ before keyword after, keyword ∈ ["void ", "dynamic ", "fn "] ∧
    code = before ++ keyword ++ name ++ "(" ++ after

/-- What a definition ends with: the names of its arguments, and its code under the name of its
function. A function of a module is not defined. -/
inductive Finishes (name : String) : List Event → Prop
  | served (h : isQualified name = true) : Finishes name []
  | defined {names : List Event} {code : String} (h : isQualified name = false)
      (arguments : ∀ e ∈ names, ∃ raw given, e = .name .variableName raw given)
      (declares : Declares name code) : Finishes name (names ++ [.define (definitionKey name) code])

/-- What a definition starts with: its name, its body and its result. -/
structure Starts (o : Options) (s : Surroundings) (r : Records) (n : Node) (ledger : Ledger)
    (given : String) (result : Option String) (named mid after : Ledger) (events : List Event) :
    Prop where
  name : ledger.getName .procedureName (n.fieldText "NAME") = (given, named)
  body : (s.bodyIn o.indent "STACK" named).2 = mid
  result : s.valueIn "RETURN" .anything mid = (.ok result, after)
  events : events = .name .procedureName (n.fieldText "NAME") given ::
    (eventsIn r.statements "STACK" named ++ eventsIn r.values "RETURN" mid)

section Runs
variable {o : Options} {s : Surroundings} {r : Records} {n : Node} {ledger after : Ledger}
  {emitted : Emitted} {events : List Event}

theorem Script.Runs.of_defineRoutine {name code : String}
    (h : (defineRoutine name code).Runs o s r ledger emitted after events) :
    emitted = .nothing ∧ ∃ comments,
      events = [.define (definitionKey name) (comments ++ code)] ∧
        after = ledger.setDefinition (definitionKey name) (comments ++ code) := by
  obtain ⟨run, rfl⟩ := h
  obtain ⟨hresult, hafter⟩ := Prod.mk.inj run
  exact ⟨(Except.ok.inj hresult).symm, s.remarks, rfl, hafter.symm⟩

/-- A definition of code that declares a function, behind the names of its arguments. -/
theorem Finishes.of_defineRoutine {name code : String} {names : List Event}
    (h : (defineRoutine name code).Runs o s r ledger emitted after events)
    (unqualified : isQualified name = false)
    (arguments : ∀ e ∈ names, ∃ raw given, e = .name .variableName raw given)
    (declares : Declares name code) : Finishes name (names ++ events) := by
  obtain ⟨-, comments, rfl, -⟩ := h.of_defineRoutine
  obtain ⟨before, keyword, rest, hk, rfl⟩ := declares
  refine .defined unqualified arguments ⟨comments ++ before, keyword, rest, hk, ?_⟩
  simp only [String.append_assoc]

theorem runs_proceduresDefine (h : (proceduresDefine o n).Runs o s r ledger emitted after events) :
    emitted = .nothing ∧ ∃ given result named mid last first rest,
      Starts o s r n ledger given result named mid last first ∧ events = first ++ rest ∧
        (isQualified given = false → Finishes given rest) := by
  obtain ⟨given, named, _, _, hname, afterName, heq⟩ := h.of_bind
  obtain ⟨body, mid, _, _, hbody, afterBody, rfl⟩ := afterName.of_bind
  obtain ⟨result, last, _, _, hresult, afterResult, rfl⟩ := afterBody.of_bind
  obtain ⟨arguments, _, names, rest, hnames, ending, rfl⟩ := afterResult.of_bind
  obtain ⟨nameRun, rfl⟩ := hname.of_name
  obtain ⟨bodyRun, rfl⟩ := hbody.of_bodyOf
  obtain ⟨resultRun, rfl⟩ := hresult.of_value?
  have starts : Starts o s r n ledger given result named mid last _ :=
    ⟨nameRun, congrArg Prod.snd bodyRun, resultRun, rfl⟩
  have split : events = .name .procedureName (n.fieldText "NAME") given ::
      (eventsIn r.statements "STACK" named ++ eventsIn r.values "RETURN" mid) ++
        (names ++ rest) := by
    simp [heq]
  have arguments := hnames.of_variableNames
  have finishes : emitted = .nothing ∧
      (isQualified given = false → Finishes given (names ++ rest)) := by
    cases result with
    | none =>
        refine ⟨ending.of_defineRoutine.1, fun unqualified => ?_⟩
        refine Finishes.of_defineRoutine ending unqualified arguments
          ⟨"", "void ", ?rest, by simp, ?code⟩
        case code =>
          simp only [String.append_assoc, String.empty_append]
          rfl
    | some returned =>
        refine ⟨ending.of_defineRoutine.1, fun unqualified => ?_⟩
        refine Finishes.of_defineRoutine ending unqualified arguments
          ⟨"", "dynamic ", ?more, by simp, ?whole⟩
        case whole =>
          simp only [String.append_assoc, String.empty_append]
          rfl
  exact ⟨finishes.1, given, result, named, mid, last, _, _, starts, split, finishes.2⟩

theorem runs_widgetsDefine (h : (widgetsDefine o n).Runs o s r ledger emitted after events) :
    emitted = .nothing ∧ ∃ given result named mid last first rest,
      Starts o s r n ledger given result named mid last first ∧ events = first ++ rest ∧
        Finishes (handlerName given (handlerHead given result).1) rest := by
  obtain ⟨given, named, _, _, hname, afterName, heq⟩ := h.of_bind
  obtain ⟨body, mid, _, _, hbody, afterBody, rfl⟩ := afterName.of_bind
  obtain ⟨result, last, _, rest, hresult, ending, rfl⟩ := afterBody.of_bind
  obtain ⟨nameRun, rfl⟩ := hname.of_name
  obtain ⟨bodyRun, rfl⟩ := hbody.of_bodyOf
  obtain ⟨resultRun, rfl⟩ := hresult.of_value?
  have starts : Starts o s r n ledger given result named mid last _ :=
    ⟨nameRun, congrArg Prod.snd bodyRun, resultRun, rfl⟩
  have split : events = .name .procedureName (n.fieldText "NAME") given ::
      (eventsIn r.statements "STACK" named ++ eventsIn r.values "RETURN" mid) ++ rest := by
    simp [heq]
  have finishes : emitted = .nothing ∧
      Finishes (handlerName given (handlerHead given result).1) rest := by
    dsimp only at ending
    split at ending
    · next qualified =>
        obtain ⟨rfl, -, rfl⟩ := ending.of_done
        exact ⟨rfl, .served qualified⟩
    · next unqualified =>
        obtain ⟨arguments, _, names, tail, hnames, definition, rfl⟩ := ending.of_bind
        have literal : "\n#[infer_type]  //  Infer the missing types\nfn " =
            "\n#[infer_type]  //  Infer the missing types\n" ++ "fn " := by decide
        rw [literal] at definition
        refine ⟨definition.of_defineRoutine.1, ?_⟩
        refine Finishes.of_defineRoutine definition (eq_false_of_ne_true unqualified)
          hnames.of_variableNames ⟨(handlerHead given result).2.2 ++
            "\n#[infer_type]  //  Infer the missing types\n", "fn ", ?rest, by simp, ?code⟩
        case code =>
          simp only [String.append_assoc]
          rfl
  exact ⟨finishes.1, given, result, named, mid, last, _, _, starts, split, finishes.2⟩

/-- The script of a definition leaves nothing, and runs in two parts. -/
theorem Kind.runs_definition {kind : Kind} (definition : kind.isProcedureDefinition = true)
    (h : (kind.script o n).Runs o s r ledger emitted after events) :
    emitted = .nothing ∧ ∃ given result named mid last first rest,
      Starts o s r n ledger given result named mid last first ∧ events = first ++ rest ∧
        (isQualified given = false → Finishes
          (if kind.definesHandler then handlerName given (handlerHead given result).1 else given)
          rest) := by
  cases kind with
  | proceduresDefReturn | proceduresDefNoReturn => exact runs_proceduresDefine h
  | widgetsDefReturn | widgetsDefNoReturn =>
      obtain ⟨leaves, given, result, named, mid, last, first, rest, starts, split, finishes⟩ :=
        runs_widgetsDefine h
      exact ⟨leaves, given, result, named, mid, last, first, rest, starts, split,
        fun _ => finishes⟩
  | _ => simp [isProcedureDefinition] at definition

end Runs

namespace Block
variable {o : Options} {b : Block} {ledger after : Ledger} {place : Place} {alone : Bool}
  {emitted : Emitted}

/-- A block that is rendered without an error runs its script. -/
theorem runs_script {kind : Kind} (on : b.node.disabled = false)
    (known : Kind.ofTypeName? b.node.kindName = some kind)
    (h : b.render o place alone ledger = (.ok emitted, after)) :
    ∃ own mid events, (kind.script o b.node).Runs o
        ⟨remarkLines kind b.node b.values, renderValues o b.values, renderStatements o b.statements⟩
        ⟨inputEvents o true b.values, inputEvents o false b.statements⟩ ledger own mid events ∧
      surround o kind b.node (remarkLines kind b.node b.values) (renderNext o b.next) place alone
        own mid = (.ok emitted, after) ∧
      b.events o alone ledger = events ++ surroundEvents alone (nextEvents o b.next) own mid := by
  rw [render_eq] at h
  simp only [renderNode, on, Bool.false_eq_true, if_false, known] at h
  obtain ⟨own, mid, run, around⟩ := Pass.andThen_eq_ok.mp h
  refine ⟨own, mid, _, ⟨run, rfl⟩, around, ?_⟩
  rw [events_eq]
  simp only [nodeEvents, on, Bool.false_eq_true, if_false, known, Pass.eventsAfter, run]

/-- What the script of a block leaves in a reachable state is what scripts of its kind leave. -/
theorem isLeftBy_of_runs {kind : Kind} {own : Emitted} {mid : Ledger} {events : List Event}
    (reachable : Reachable o.indent ledger) (on : b.node.disabled = false)
    (known : Kind.ofTypeName? b.node.kindName = some kind)
    (runs : (kind.script o b.node).Runs o
      ⟨remarkLines kind b.node b.values, renderValues o b.values, renderStatements o b.statements⟩
      ⟨inputEvents o true b.values, inputEvents o false b.statements⟩ ledger own mid events) :
    (definitionScope events True).IsLeftBy kind own := by
  have all : ∀ m, (definitionScope events True).modules m := fun _ => trivial
  have fits : (definitionScope events True).tidy.Fits ledger :=
    ⟨reachable.derived, fun _ _ => ⟨"", MentionsOnly.of_all all _ _⟩⟩
  have sound : b.Sound (definitionScope events True) := .of_all all fun _ _ _ => trivial
  have quiet : o.Quiet (definitionScope events True).modules := .inl all
  have honours := tidy_ownRun quiet sound on known ledger fits
  rw [runs.events, runs.run] at honours
  exact (honours fun e he => Scope.tidy_relies (fun m _ => all m)
    fun raw given heq => ⟨raw, heq ▸ he⟩).2.2

/-- A block in a value input leaves code there, and not the empty one, unless it is disabled or a
definition. -/
theorem leavesCode_of_render (reachable : Reachable o.indent ledger)
    (h : b.render o .value true ledger = (.ok emitted, after)) :
    match emitted with
    | .value code _ => b.node.leavesCode = true ∧ code ≠ ""
    | .statement _ => True
    | .nothing => b.node.leavesCode = false := by
  by_cases off : b.node.disabled = true
  · rw [render_eq] at h
    simp only [renderNode, off, if_true, skipDisabled] at h
    obtain ⟨hresult, -⟩ := Prod.mk.inj h
    obtain rfl := Except.ok.inj hresult
    simp [Node.leavesCode, off]
  · have on : b.node.disabled = false := eq_false_of_ne_true off
    cases known : Kind.ofTypeName? b.node.kindName with
    | none =>
        rw [render_eq] at h
        simp only [renderNode, on, Bool.false_eq_true, if_false, known] at h
        exact absurd (congrArg Prod.fst h) (by simp [Pass.fail])
    | some kind =>
        obtain ⟨own, mid, events, runs, around, -⟩ := runs_script on known h
        have left := isLeftBy_of_runs reachable on known runs
        have leaves : b.node.leavesCode = !kind.isProcedureDefinition := by
          simp [Node.leavesCode, on, known]
        cases own with
        | value code level =>
            obtain ⟨hresult, -⟩ := Prod.mk.inj around
            obtain rfl := Except.ok.inj hresult
            have ordinary : kind.isProcedureDefinition = false := by
              rw [Bool.eq_false_iff]
              intro definition
              exact Emitted.noConfusion (Kind.runs_definition definition runs).1
            exact ⟨by simp [leaves, ordinary], by simpa [remarksAt] using left.nonempty⟩
        | statement code =>
            obtain ⟨hresult, -⟩ := Prod.mk.inj around
            obtain rfl := Except.ok.inj hresult
            trivial
        | nothing =>
            obtain ⟨hresult, -⟩ := Prod.mk.inj around
            obtain rfl := Except.ok.inj hresult
            have definition : kind.isProcedureDefinition = true := left
            simp [leaves, definition]

/-- There is code in a value input if, and only if, a block is there that leaves some. -/
theorem isSome_valueIn {remarks input : String} {level : Precedence} {code : Option String}
    (reachable : Reachable o.indent ledger)
    (h : Surroundings.valueIn ⟨remarks, renderValues o b.values, renderStatements o b.statements⟩
      input level ledger = (.ok code, after)) :
    code.isSome = (b.value? input).any fun child => child.node.leavesCode := by
  simp only [Surroundings.valueIn, get?_renderValues] at h
  change _ = (Table.get? b.values input).any _
  cases found : Table.get? b.values input with
  | none =>
      simp only [found, Option.map_none] at h
      obtain ⟨hresult, -⟩ := Prod.mk.inj h
      obtain rfl := Except.ok.inj hresult
      rfl
  | some child =>
      simp only [found, Option.map_some] at h
      obtain ⟨emitted, mid, rendered, fit⟩ := Pass.andThen_eq_ok.mp h
      have leaves := leavesCode_of_render reachable rendered
      cases emitted with
      | value text inner =>
          obtain ⟨hresult, -⟩ := Prod.mk.inj fit
          obtain rfl := Except.ok.inj hresult
          simp [leaves.1, leaves.2]
      | statement text => exact absurd (congrArg Prod.fst fit) (by simp [valueCode, Pass.fail])
      | nothing =>
          obtain ⟨hresult, -⟩ := Prod.mk.inj fit
          obtain rfl := Except.ok.inj hresult
          simp [leaves]

/-- What is defined in an input is defined by a block below. -/
theorem defines_of_mem_eventsIn {inputs : List (String × Block)} {input key code : String}
    (reachable : Reachable o.indent ledger)
    (h : .define key code ∈ eventsIn (inputEvents o alone inputs) input ledger) :
    ∃ n ∈ walkInputs inputs, n.Defines := by
  simp only [eventsIn, get?_inputEvents] at h
  cases found : Table.get? inputs input with
  | none =>
      simp only [found, Option.map_none] at h
      exact absurd h List.not_mem_nil
  | some child =>
      simp only [found, Option.map_some] at h
      obtain ⟨n, hn, defines⟩ := (defines_routines reachable h).1
      rw [walkInputs_eq]
      exact ⟨n, List.mem_flatMap.mpr ⟨_, Table.mem_of_get? found, hn⟩, defines⟩

/-- A definition leaves nothing at its place. It asks for its name, and it ends by defining its
function; before that nothing is defined but by blocks inside it. -/
theorem events_definition (definition : b.node.Defines) (reachable : Reachable o.indent ledger)
    (h : b.render o place alone ledger = (.ok emitted, after)) :
    emitted = .nothing ∧ ∃ given first rest, b.events o alone ledger = first ++ rest ∧
      .name .procedureName (b.node.fieldText "NAME") given ∈ first ∧
      Finishes (b.routineName given) rest ∧
      ((∀ n ∈ b.walk.tail, ¬ n.Defines) → ∀ key code, .define key code ∉ first) := by
  obtain ⟨on, kind, known, defines⟩ := definition
  obtain ⟨own, last, events, runs, around, hevents⟩ := runs_script on known h
  obtain ⟨rfl, given, result, named, mid, _, first, rest, starts, rfl, finishes⟩ :=
    Kind.runs_definition defines runs
  obtain ⟨hresult, -⟩ := Prod.mk.inj around
  have reachableNamed : Reachable o.indent named := by
    have step : Step o.indent ledger _ _ :=
      .name ledger .procedureName (b.node.fieldText "NAME")
    rw [starts.name] at step
    exact reachable.of_steps (.cons step (.refl named))
  have reachableMid : Reachable o.indent mid := by
    have steps := (b.tell o (remarkLines kind b.node b.values)).statements "STACK" named
    rw [starts.body] at steps
    exact reachableNamed.of_steps steps
  refine ⟨(Except.ok.inj hresult).symm, given, first, rest, ?_, ?_, ?_, ?_⟩
  · simpa [surroundEvents] using hevents
  · rw [starts.events]
    exact List.mem_cons_self
  · have made := (reachable.derived.getName .procedureName (b.node.fieldText "NAME")).1
    rw [starts.name] at made
    have event : (handlerHead given result).1 = b.handlerEvent := by
      rw [handlerEvent, ← isSome_valueIn reachableMid starts.result]
      cases result <;> rfl
    have own := finishes (isQualified_of_isIdentifier made.isIdentifier)
    rwa [event, show kind.definesHandler = b.node.definesHandler by
      simp [Node.definesHandler, known]] at own
  · intro alone key code mem
    have below : ∃ n ∈ b.walk.tail, n.Defines := by
      rw [starts.events] at mem
      rw [walk_eq, List.tail_cons]
      rcases List.mem_append.mp ((List.mem_cons.mp mem).resolve_left (by simp)) with mem | mem
      · obtain ⟨n, hn, defines⟩ := defines_of_mem_eventsIn reachableNamed mem
        exact ⟨n, List.mem_append_right _ (List.mem_append_left _ hn), defines⟩
      · obtain ⟨n, hn, defines⟩ := defines_of_mem_eventsIn reachableMid mem
        exact ⟨n, List.mem_append_left _ hn, defines⟩
    obtain ⟨n, hn, defines⟩ := below
    exact alone n hn defines

end Block

end BlockScript
