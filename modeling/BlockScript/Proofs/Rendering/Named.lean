import BlockScript.Proofs.Rendering.Record

/-! # Rendering with given names

Templates know the names of variables and procedures only from the answers to their requests. A
rendering can therefore be told which names to use: where these are the ones that the ledger gave
out, it is the same rendering. -/

namespace BlockScript

/-- Meet the requests of a script, but answer those for names in a given way. -/
def Script.runNamed {α : Type} (answer : NameCategory → String → String) (o : Options)
    (s : Surroundings) : Script α → Pass α
  | .done a => .pure a
  | .fail error => .fail error
  | .value input level next =>
      (s.valueIn input level).andThen fun code => (next code).runNamed answer o s
  | .body input next =>
      (s.bodyIn o.indent input).andThen fun code => (next code).runNamed answer o s
  | .hasBody input next => (next (s.statements.get? input).isSome).runNamed answer o s
  | .remarks next => (next s.remarks).runNamed answer o s
  | .name category raw next => fun ledger =>
      (next (answer category raw)).runNamed answer o s (ledger.getName category raw).2
  | .temporary base next => fun ledger =>
      let given := ledger.distinctName base
      (next given.1).runNamed answer o s given.2
  | .helper h next => fun ledger =>
      let given := ledger.provide h o.indent
      (next given.1).runNamed answer o s given.2
  | .require m next => fun ledger => next.runNamed answer o s (ledger.addImport m)
  | .define key code next => fun ledger =>
      next.runNamed answer o s (ledger.setDefinition key code)
  | .clearWidgets next => fun ledger => next.runNamed answer o s ledger.clearWidgets
  | .addWidget widget code next => fun ledger =>
      next.runNamed answer o s (ledger.putWidget widget code)
  | .widgets next => fun ledger => (next ledger.widgets.values).runNamed answer o s ledger

/-- Render a block with given names, as are the blocks plugged into it. -/
def renderNodeNamed (answer : NameCategory → String → String) (o : Options) (n : Node)
    (values : List (String × Block)) (valueSteps : Table (Node × Pass Emitted))
    (statementSteps : Table (Pass String)) (next : Option (Pass String)) (place : Place)
    (alone : Bool) : Pass Emitted :=
  if n.disabled then skipDisabled alone next
  else
    match Kind.ofTypeName? n.kindName with
    | none => .fail (.unknownKind n.id n.kindName)
    | some kind =>
        let remarks := remarkLines kind n values
        ((kind.script o n).runNamed answer o ⟨remarks, valueSteps, statementSteps⟩).andThen
          (surround o kind n remarks next place alone)

namespace Block

mutual

/-- Render a block with given names of variables and procedures. -/
def renderNamed (answer : NameCategory → String → String) (o : Options) :
    Block → Place → Bool → Pass Emitted
  | ⟨node, values, statements, next⟩, place, alone =>
      renderNodeNamed answer o node values (renderValuesNamed answer o values)
        (renderStatementsNamed answer o statements) (renderNextNamed answer o next) place alone

def renderValuesNamed (answer : NameCategory → String → String) (o : Options) :
    List (String × Block) → List (String × (Node × Pass Emitted))
  | [] => []
  | (input, child) :: rest =>
      (input, (child.node, renderNamed answer o child .value true)) ::
        renderValuesNamed answer o rest

def renderStatementsNamed (answer : NameCategory → String → String) (o : Options) :
    List (String × Block) → List (String × Pass String)
  | [] => []
  | (input, child) :: rest =>
      (input, (renderNamed answer o child .statement false).andThen (chainCode child.node)) ::
        renderStatementsNamed answer o rest

def renderNextNamed (answer : NameCategory → String → String) (o : Options) :
    Option Block → Option (Pass String)
  | none => none
  | some child =>
      some ((renderNamed answer o child .statement false).andThen (chainCode child.node))

end

/-- The rendering of a block at the top, with given names. -/
def renderTopNamed (answer : NameCategory → String → String) (o : Options) (b : Block) :
    Pass (Option String) :=
  (b.renderNamed answer o .top false).andThen fun emitted => .pure (lineOf emitted)

end Block

/-- The names that were given out, as answers. -/
def Names.answer (names : Names) (category : NameCategory) (raw : String) : String :=
  (names.lookup category raw).getD ""

/-- Did all requests for names get the given answers? -/
def Answered (answer : NameCategory → String → String) (es : List Event) : Prop :=
  ∀ category raw given, .name category raw given ∈ es → answer category raw = given

section
variable {answer : NameCategory → String → String} {o : Options}

theorem Answered.left {es more : List Event} (h : Answered answer (es ++ more)) :
    Answered answer es :=
  fun category raw given hm => h category raw given (List.mem_append_left _ hm)

theorem Answered.right {es more : List Event} (h : Answered answer (es ++ more)) :
    Answered answer more :=
  fun category raw given hm => h category raw given (List.mem_append_right _ hm)

theorem Answered.tail {e : Event} {es : List Event} (h : Answered answer (e :: es)) :
    Answered answer es :=
  fun category raw given hm => h category raw given (List.mem_cons_of_mem _ hm)

theorem Pass.andThen_congr {α β : Type} {step step' : Pass α} {ledger : Ledger}
    (h : step' ledger = step ledger) (next : α → Pass β) :
    step'.andThen next ledger = step.andThen next ledger := by
  simp only [andThen, h]

/-- Two steps in a row are the same as two others if each is, as far as it is reached. -/
theorem Pass.andThen_named {α β : Type} {step step' : Pass α} {next next' : α → Pass β}
    {first : List Event} {second : α → Ledger → List Event} {ledger : Ledger}
    (answered : Answered answer (first ++ step.eventsAfter second ledger))
    (h : Answered answer first → step' ledger = step ledger)
    (h' : ∀ a mid, Answered answer (second a mid) → next' a mid = next a mid) :
    step'.andThen next' ledger = step.andThen next ledger := by
  have same := h answered.left
  have rest := answered.right
  rcases hs : step ledger with ⟨error | a, mid⟩
  · rw [andThen_of_error hs, andThen_of_error (same.trans hs)]
  · simp only [eventsAfter, hs] at rest
    rw [andThen_of_ok hs, andThen_of_ok (same.trans hs)]
    exact h' a mid rest

/-- Are the steps of two surroundings the same wherever names are answered as given? -/
structure Surroundings.SameNamed (answer : NameCategory → String → String) (o : Options)
    (r : Records) (s s' : Surroundings) : Prop where
  values : ∀ input level ledger, Answered answer (eventsIn r.values input ledger) →
    s'.valueIn input level ledger = s.valueIn input level ledger
  bodies : ∀ input ledger, Answered answer (eventsIn r.statements input ledger) →
    s'.bodyIn o.indent input ledger = s.bodyIn o.indent input ledger
  plugged : ∀ input, (s'.statements.get? input).isSome = (s.statements.get? input).isSome
  remarks : s'.remarks = s.remarks

/-- Told the names that it was given, a script runs as it did. -/
theorem Script.runNamed_eq {α : Type} {r : Records} {s s' : Surroundings}
    (same : Surroundings.SameNamed answer o r s s') (script : Script α) (ledger : Ledger)
    (h : Answered answer (script.events o s r ledger)) :
    script.runNamed answer o s' ledger = script.run o s ledger := by
  induction script generalizing ledger with
  | done a => rfl
  | fail error => rfl
  | value input level next ih => exact Pass.andThen_named h (same.values input level ledger) ih
  | body input next ih => exact Pass.andThen_named h (same.bodies input ledger) ih
  | hasBody input next ih =>
      simp only [runNamed, run, same.plugged]
      exact ih _ ledger h
  | remarks next ih =>
      simp only [runNamed, run, same.remarks]
      exact ih _ ledger h
  | name category raw next ih =>
      have given := h category raw _ List.mem_cons_self
      simp only [runNamed, run, given]
      exact ih _ _ h.tail
  | temporary base next ih => exact ih _ _ h.tail
  | helper helper next ih => exact ih _ _ h.tail
  | require m next ih => exact ih _ h.tail
  | define key code next ih => exact ih _ h.tail
  | clearWidgets next ih => exact ih _ h.tail
  | addWidget widget code next ih => exact ih _ h.tail
  | widgets next ih => exact ih _ ledger h

end

namespace Block
variable (answer : NameCategory → String → String) (o : Options)

theorem renderNamed_eq_node (b : Block) (place : Place) (alone : Bool) :
    b.renderNamed answer o place alone =
      renderNodeNamed answer o b.node b.values (renderValuesNamed answer o b.values)
        (renderStatementsNamed answer o b.statements) (renderNextNamed answer o b.next) place
        alone := by
  cases b
  rfl

theorem get?_renderValuesNamed (values : List (String × Block)) (input : String) :
    Table.get? (renderValuesNamed answer o values) input =
      (Table.get? values input).map fun child =>
        (child.node, child.renderNamed answer o .value true) := by
  induction values with
  | nil => rfl
  | cons entry rest ih =>
      simp only [renderValuesNamed, Table.get?]
      split
      · rfl
      · exact ih

theorem get?_renderStatementsNamed (statements : List (String × Block)) (input : String) :
    Table.get? (renderStatementsNamed answer o statements) input =
      (Table.get? statements input).map fun child =>
        (child.renderNamed answer o .statement false).andThen (chainCode child.node) := by
  induction statements with
  | nil => rfl
  | cons entry rest ih =>
      simp only [renderStatementsNamed, Table.get?]
      split
      · rfl
      · exact ih

theorem renderNextNamed_eq (next : Option Block) :
    renderNextNamed answer o next =
      next.map fun child =>
        (child.renderNamed answer o .statement false).andThen (chainCode child.node) := by
  cases next <;> rfl

variable {answer o}

/-- Behind the code of a statement the same code follows. -/
theorem surroundNamed_eq {alone : Bool} {next next' : Option (Pass String)}
    {record : Option (Ledger → List Event)}
    (following : ∀ ledger, Answered answer (followingEvents alone record ledger) →
      followingCode alone next' ledger = followingCode alone next ledger)
    (kind : Kind) (n : Node) (remarks : String) (place : Place) (emitted : Emitted)
    (ledger : Ledger) (h : Answered answer (surroundEvents alone record emitted ledger)) :
    surround o kind n remarks next' place alone emitted ledger =
      surround o kind n remarks next place alone emitted ledger := by
  cases emitted with
  | value code level => rfl
  | nothing => rfl
  | statement code => exact Pass.andThen_congr (following ledger h) _

theorem skipDisabledNamed_eq {alone : Bool} {next next' : Option (Pass String)} {ledger : Ledger}
    (filled : next'.isSome = next.isSome)
    (same : followingCode alone next' ledger = followingCode alone next ledger) :
    skipDisabled alone next' ledger = skipDisabled alone next ledger := by
  cases alone with
  | true => rfl
  | false =>
      cases next with
      | none =>
          obtain rfl := Option.not_isSome_iff_eq_none.mp (Bool.eq_false_iff.mp filled)
          rfl
      | some step =>
          obtain ⟨step', rfl⟩ := Option.isSome_iff_exists.mp filled
          exact Pass.andThen_congr same _

/-- The named rendering of a block is the rendering, wherever its requests are answered as given. -/
def AgreesNamed (answer : NameCategory → String → String) (o : Options) (b : Block) : Prop :=
  ∀ place alone ledger, Answered answer (b.events o alone ledger) →
    b.renderNamed answer o place alone ledger = b.render o place alone ledger

theorem AgreesNamed.chain {child : Block} (agrees : child.AgreesNamed answer o) (ledger : Ledger)
    (h : Answered answer (child.events o false ledger)) :
    (child.renderNamed answer o .statement false).andThen (chainCode child.node) ledger =
      renderChain o child ledger :=
  Pass.andThen_congr (agrees .statement false ledger h) _

/-- Blocks that are rendered the same surround a script in the same way. -/
theorem sameNamed_inputs {values statements : List (String × Block)}
    (ofValues : ∀ entry ∈ values, entry.2.AgreesNamed answer o)
    (ofStatements : ∀ entry ∈ statements, entry.2.AgreesNamed answer o) (remarks : String) :
    Surroundings.SameNamed answer o
      ⟨inputEvents o true values, inputEvents o false statements⟩
      ⟨remarks, renderValues o values, renderStatements o statements⟩
      ⟨remarks, renderValuesNamed answer o values, renderStatementsNamed answer o statements⟩ where
  values := by
    intro input level ledger h
    simp only [eventsIn, get?_inputEvents] at h
    simp only [Surroundings.valueIn, get?_renderValuesNamed, get?_renderValues]
    cases hc : Table.get? values input with
    | none => rfl
    | some child =>
        rw [hc] at h
        exact Pass.andThen_congr (ofValues _ (Table.mem_of_get? hc) .value true ledger h) _
  bodies := by
    intro input ledger h
    simp only [eventsIn, get?_inputEvents] at h
    simp only [Surroundings.bodyIn, get?_renderStatementsNamed, get?_renderStatements]
    cases hc : Table.get? statements input with
    | none => rfl
    | some child =>
        rw [hc] at h
        exact Pass.andThen_congr ((ofStatements _ (Table.mem_of_get? hc)).chain ledger h) _
  plugged := by
    intro input
    simp only [get?_renderStatementsNamed, get?_renderStatements, Option.isSome_map]
  remarks := rfl

/-- If the next block is rendered the same, so is all that follows. -/
theorem followingNamed_eq {next : Option Block}
    (ofNext : ∀ child, next = some child → child.AgreesNamed answer o) (alone : Bool)
    (ledger : Ledger) (h : Answered answer (followingEvents alone (nextEvents o next) ledger)) :
    followingCode alone (renderNextNamed answer o next) ledger =
      followingCode alone (renderNext o next) ledger := by
  rw [renderNextNamed_eq, renderNext_eq]
  rw [nextEvents_eq] at h
  cases alone with
  | true => rfl
  | false =>
      cases hc : next with
      | none => rfl
      | some child =>
          rw [hc] at h
          exact (ofNext child hc).chain ledger h

/-- Told the names that it was given, a block is rendered as it was. -/
theorem renderNamed_eq (b : Block) (place : Place) (alone : Bool) (ledger : Ledger)
    (h : Answered answer (b.events o alone ledger)) :
    b.renderNamed answer o place alone ledger = b.render o place alone ledger := by
  induction b generalizing place alone ledger with
  | mk node values statements next ihv ihs ihn =>
      have following := followingNamed_eq ihn alone
      rw [events_eq] at h
      rw [renderNamed_eq_node, render_eq]
      by_cases hd : node.disabled = true
      · simp only [nodeEvents, if_pos hd] at h
        simp only [renderNodeNamed, renderNode, if_pos hd]
        apply skipDisabledNamed_eq
        · rw [renderNextNamed_eq, renderNext_eq, Option.isSome_map, Option.isSome_map]
        · exact following ledger h
      · simp only [nodeEvents, if_neg hd] at h
        simp only [renderNodeNamed, renderNode, if_neg hd]
        cases hk : Kind.ofTypeName? node.kindName with
        | none => rfl
        | some kind =>
            rw [hk] at h
            exact Pass.andThen_named h (Script.runNamed_eq (sameNamed_inputs ihv ihs _) _ ledger)
              (surroundNamed_eq following kind node _ place)

theorem renderTopNamed_eq (b : Block) (ledger : Ledger)
    (h : Answered answer (b.events o false ledger)) :
    b.renderTopNamed answer o ledger = b.renderTop o ledger :=
  Pass.andThen_congr (b.renderNamed_eq .top false ledger h) _

end Block

end BlockScript
