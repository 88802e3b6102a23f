import BlockScript.Proofs.Rendering.Structure

/-! # The record of a pass

Every request that scripts make of the ledger is an event, told with the answer it got. The
ledger after a rendering is reached from the ledger before it by the events of the rendering, one
step each, whether the rendering succeeds or fails half-way. What each kind of step keeps is
therefore kept by every rendering. -/

namespace BlockScript

/-- A request made of the ledger, and what it was answered. -/
inductive Event where
  /-- The name of a variable or a procedure. -/
  | name (category : NameCategory) (raw given : String)
  /-- The name of a temporary. -/
  | temporary (given : String)
  /-- The name of a helper function. -/
  | helper (h : Helper) (given : String)
  | require (m : Module)
  /-- A definition that gives way to none. -/
  | declare (key code : String)
  /-- A definition of the user. -/
  | define (key code : String)
  | clearWidgets
  | addWidget (widget code : String)
deriving DecidableEq, Repr

namespace Ledger

/-- What one event makes of a ledger. -/
inductive Step (indent : String) : Ledger → Event → Ledger → Prop
  | name (ledger : Ledger) (category : NameCategory) (raw : String) :
      Step indent ledger (.name category raw (ledger.getName category raw).1)
        (ledger.getName category raw).2
  | temporary (ledger : Ledger) (base : String) :
      Step indent ledger (.temporary (ledger.distinctName base).1) (ledger.distinctName base).2
  | helper (ledger : Ledger) (h : Helper) :
      Step indent ledger (.helper h (ledger.provide h indent).1) (ledger.provide h indent).2
  | require (ledger : Ledger) (m : Module) : Step indent ledger (.require m) (ledger.addImport m)
  | declare (ledger : Ledger) (key code : String) :
      Step indent ledger (.declare key code) (ledger.addDefinition key code)
  | define (ledger : Ledger) (key code : String) :
      Step indent ledger (.define key code) (ledger.setDefinition key code)
  | clearWidgets (ledger : Ledger) : Step indent ledger .clearWidgets ledger.clearWidgets
  | addWidget (ledger : Ledger) (widget code : String) :
      Step indent ledger (.addWidget widget code) (ledger.putWidget widget code)

/-- What a list of events makes of a ledger. -/
inductive Steps (indent : String) : Ledger → List Event → Ledger → Prop
  | refl (ledger : Ledger) : Steps indent ledger [] ledger
  | cons {ledger mid after : Ledger} {event : Event} {events : List Event}
      (head : Step indent ledger event mid) (tail : Steps indent mid events after) :
      Steps indent ledger (event :: events) after

/-- A state of the ledger that some requests lead to. -/
def Reachable (indent : String) (ledger : Ledger) : Prop :=
  ∃ events, Steps indent {} events ledger

variable {indent : String} {ledger mid after : Ledger}

theorem Steps.append {first second : List Event} (h : Steps indent ledger first mid)
    (h' : Steps indent mid second after) : Steps indent ledger (first ++ second) after := by
  induction h with
  | refl => exact h'
  | cons head _ ih => exact .cons head (ih h')

/-- What every step keeps is kept by any number of steps. -/
theorem Steps.keeps {Holds : Ledger → Prop} {events : List Event}
    (h : Steps indent ledger events after)
    (step : ∀ {l e l'}, Step indent l e l' → Holds l → Holds l') (start : Holds ledger) :
    Holds after := by
  induction h with
  | refl => exact start
  | cons head _ ih => exact ih (step head start)

theorem Reachable.of_steps {events : List Event} (h : Reachable indent ledger)
    (h' : Steps indent ledger events after) : Reachable indent after := by
  obtain ⟨first, hf⟩ := h
  exact ⟨first ++ events, hf.append h'⟩

end Ledger

/-- The events that the inputs of a block add when they are rendered. -/
structure Records where
  values : Table (Ledger → List Event)
  statements : Table (Ledger → List Event)

/-- The events of rendering what fills an input, if anything does. -/
def eventsIn (records : Table (Ledger → List Event)) (input : String) (ledger : Ledger) :
    List Event :=
  match records.get? input with
  | none => []
  | some record => record ledger

/-- The events of what comes after a step; none if the step fails. -/
def Pass.eventsAfter {α : Type} (step : Pass α) (next : α → Ledger → List Event)
    (ledger : Ledger) : List Event :=
  match step ledger with
  | (.ok a, after) => next a after
  | (.error _, _) => []

/-- The events of running a script, in order. -/
def Script.events {α : Type} (o : Options) (s : Surroundings) (r : Records) :
    Script α → Ledger → List Event
  | .done _, _ => []
  | .fail _, _ => []
  | .value input level next, ledger =>
      eventsIn r.values input ledger ++
        (s.valueIn input level).eventsAfter (fun code => (next code).events o s r) ledger
  | .body input next, ledger =>
      eventsIn r.statements input ledger ++
        (s.bodyIn o.indent input).eventsAfter (fun code => (next code).events o s r) ledger
  | .hasBody input next, ledger =>
      (next (s.statements.get? input).isSome).events o s r ledger
  | .remarks next, ledger => (next s.remarks).events o s r ledger
  | .name category raw next, ledger =>
      let given := ledger.getName category raw
      .name category raw given.1 :: (next given.1).events o s r given.2
  | .temporary base next, ledger =>
      let given := ledger.distinctName base
      .temporary given.1 :: (next given.1).events o s r given.2
  | .helper h next, ledger =>
      let given := ledger.provide h o.indent
      .helper h given.1 :: (next given.1).events o s r given.2
  | .require m next, ledger => .require m :: next.events o s r (ledger.addImport m)
  | .define key code next, ledger =>
      .define key code :: next.events o s r (ledger.setDefinition key code)
  | .clearWidgets next, ledger => .clearWidgets :: next.events o s r ledger.clearWidgets
  | .addWidget widget code next, ledger =>
      .addWidget widget code :: next.events o s r (ledger.putWidget widget code)
  | .widgets next, ledger => (next ledger.widgets.values).events o s r ledger

/-- The events of the code that follows a statement. -/
def followingEvents (alone : Bool) (next : Option (Ledger → List Event)) (ledger : Ledger) :
    List Event :=
  match alone, next with
  | false, some record => record ledger
  | _, _ => []

/-- The events after the script of a block: only a statement has following code. -/
def surroundEvents (alone : Bool) (next : Option (Ledger → List Event)) :
    Emitted → Ledger → List Event
  | .statement _, ledger => followingEvents alone next ledger
  | _, _ => []

/-- The events of rendering a block, given those of what is plugged into it and follows it. -/
def nodeEvents (o : Options) (n : Node) (values : List (String × Block))
    (valueSteps : Table (Node × Pass Emitted)) (statementSteps : Table (Pass String))
    (r : Records) (next : Option (Ledger → List Event)) (alone : Bool) (ledger : Ledger) :
    List Event :=
  if n.disabled then followingEvents alone next ledger
  else
    match Kind.ofTypeName? n.kindName with
    | none => []
    | some kind =>
        let s : Surroundings := ⟨remarkLines kind n values, valueSteps, statementSteps⟩
        (kind.script o n).events o s r ledger ++
          ((kind.script o n).run o s).eventsAfter (surroundEvents alone next) ledger

namespace Block

mutual

/-- The events of rendering a block; they do not depend on the place where it stands. -/
def events (o : Options) : Block → Bool → Ledger → List Event
  | ⟨node, values, statements, next⟩, alone =>
      nodeEvents o node values (renderValues o values) (renderStatements o statements)
        ⟨inputEvents o true values, inputEvents o false statements⟩ (nextEvents o next) alone

/-- The events of rendering the blocks in inputs. -/
def inputEvents (o : Options) (alone : Bool) :
    List (String × Block) → List (String × (Ledger → List Event))
  | [] => []
  | (input, child) :: rest => (input, events o child alone) :: inputEvents o alone rest

/-- The events of rendering the next block. -/
def nextEvents (o : Options) : Option Block → Option (Ledger → List Event)
  | none => none
  | some child => some (events o child false)

end

variable (o : Options)

theorem events_eq (b : Block) (alone : Bool) :
    b.events o alone =
      nodeEvents o b.node b.values (renderValues o b.values) (renderStatements o b.statements)
        ⟨inputEvents o true b.values, inputEvents o false b.statements⟩ (nextEvents o b.next)
        alone := by
  cases b
  rfl

theorem get?_inputEvents (alone : Bool) (inputs : List (String × Block)) (input : String) :
    Table.get? (inputEvents o alone inputs) input =
      (Table.get? inputs input).map fun child => child.events o alone := by
  induction inputs with
  | nil => rfl
  | cons entry rest ih =>
      simp only [inputEvents, Table.get?]
      split
      · rfl
      · exact ih

theorem nextEvents_eq (next : Option Block) :
    nextEvents o next = next.map fun child => child.events o false := by
  cases next <;> rfl

end Block

/-! The ledger follows the record. -/

open Ledger

/-- Do records tell how the steps of the surroundings change the ledger? -/
structure Records.Tell (o : Options) (s : Surroundings) (r : Records) : Prop where
  values : ∀ input level ledger,
    Steps o.indent ledger (eventsIn r.values input ledger) (s.valueIn input level ledger).2
  statements : ∀ input ledger,
    Steps o.indent ledger (eventsIn r.statements input ledger) (s.bodyIn o.indent input ledger).2

theorem Pass.steps_andThen {α β : Type} {indent : String} {step : Pass α} {next : α → Pass β}
    {first : List Event} {second : α → Ledger → List Event} {ledger : Ledger}
    (h : Steps indent ledger first (step ledger).2)
    (h' : ∀ a mid, Steps indent mid (second a mid) (next a mid).2) :
    Steps indent ledger (first ++ step.eventsAfter second ledger)
      (step.andThen next ledger).2 := by
  rcases hs : step ledger with ⟨result, mid⟩
  rw [hs] at h
  cases result with
  | ok a =>
      rw [andThen_of_ok hs]
      simp only [eventsAfter, hs]
      exact h.append (h' a mid)
  | error error =>
      rw [andThen_of_error hs]
      simp only [eventsAfter, hs, List.append_nil]
      exact h

/-- A script changes the ledger by its events. -/
theorem Script.steps_run {α : Type} {o : Options} {s : Surroundings} {r : Records}
    (tell : r.Tell o s) (script : Script α) (ledger : Ledger) :
    Steps o.indent ledger (script.events o s r ledger) (script.run o s ledger).2 := by
  induction script generalizing ledger with
  | done a => exact .refl ledger
  | fail error => exact .refl ledger
  | value input level next ih =>
      exact Pass.steps_andThen (tell.values input level ledger) ih
  | body input next ih => exact Pass.steps_andThen (tell.statements input ledger) ih
  | hasBody input next ih => exact ih _ ledger
  | remarks next ih => exact ih _ ledger
  | name category raw next ih => exact .cons (.name ledger category raw) (ih _ _)
  | temporary base next ih => exact .cons (.temporary ledger base) (ih _ _)
  | helper h next ih => exact .cons (.helper ledger h) (ih _ _)
  | require m next ih => exact .cons (.require ledger m) (ih _)
  | define key code next ih => exact .cons (.define ledger key code) (ih _)
  | clearWidgets next ih => exact .cons (.clearWidgets ledger) (ih _)
  | addWidget widget code next ih => exact .cons (.addWidget ledger widget code) (ih _)
  | widgets next ih => exact ih _ ledger

/-- Skipping a disabled block writes down what the code after it does. -/
theorem skipDisabled_snd (alone : Bool) (next : Option (Pass String)) (ledger : Ledger) :
    (skipDisabled alone next ledger).2 = (followingCode alone next ledger).2 := by
  unfold skipDisabled followingCode
  split
  · exact Pass.andThen_snd (fun _ _ => rfl) ledger
  · rfl

theorem steps_surround {o : Options} {alone : Bool} {next : Option (Pass String)}
    {record : Option (Ledger → List Event)}
    (h : ∀ ledger, Steps o.indent ledger (followingEvents alone record ledger)
      (followingCode alone next ledger).2)
    (kind : Kind) (n : Node) (remarks : String) (place : Place) (emitted : Emitted)
    (ledger : Ledger) :
    Steps o.indent ledger (surroundEvents alone record emitted ledger)
      (surround o kind n remarks next place alone emitted ledger).2 := by
  cases emitted with
  | value code level => exact .refl ledger
  | statement code =>
      simp only [surround, surroundEvents]
      rw [Pass.andThen_snd fun _ _ => rfl]
      exact h ledger
  | nothing => exact .refl ledger

namespace Block

/-- The records of inputs tell what rendering them does, if those of the blocks there do. -/
theorem tell_inputs {o : Options} {values statements : List (String × Block)} (remarks : String)
    (hv : ∀ input ∈ values, ∀ ledger,
      Steps o.indent ledger (input.2.events o true ledger) (input.2.render o .value true ledger).2)
    (hs : ∀ input ∈ statements, ∀ ledger,
      Steps o.indent ledger (input.2.events o false ledger)
        (input.2.render o .statement false ledger).2) :
    Records.Tell o ⟨remarks, renderValues o values, renderStatements o statements⟩
      ⟨inputEvents o true values, inputEvents o false statements⟩ := by
  constructor
  · intro input level ledger
    simp only [eventsIn, Surroundings.valueIn, get?_inputEvents, get?_renderValues]
    cases hc : Table.get? values input with
    | none => exact .refl ledger
    | some child =>
        simp only [Option.map_some]
        rw [Pass.andThen_snd fun _ _ => valueCode_snd _ _ _ _]
        exact hv _ (Table.mem_of_get? hc) _
  · intro input ledger
    simp only [eventsIn, Surroundings.bodyIn, get?_inputEvents, get?_renderStatements]
    cases hc : Table.get? statements input with
    | none => exact .refl ledger
    | some child =>
        simp only [Option.map_some, renderChain]
        rw [Pass.andThen_snd fun _ _ => rfl, Pass.andThen_snd fun _ _ => chainCode_snd _ _ _]
        exact hs _ (Table.mem_of_get? hc) _

/-- A block changes the ledger by its events, wherever it stands. -/
theorem steps_render (o : Options) (b : Block) (place : Place) (alone : Bool) (ledger : Ledger) :
    Steps o.indent ledger (b.events o alone ledger) (b.render o place alone ledger).2 := by
  induction b generalizing place alone ledger with
  | mk node values statements next ihv ihs ihn =>
      have following (alone : Bool) (ledger : Ledger) :
          Steps o.indent ledger (followingEvents alone (nextEvents o next) ledger)
            (followingCode alone (renderNext o next) ledger).2 := by
        rw [nextEvents_eq, renderNext_eq]
        cases alone with
        | true => exact .refl ledger
        | false =>
            cases hc : next with
            | none => exact .refl ledger
            | some child =>
                simp only [Option.map_some, followingEvents, followingCode, renderChain]
                rw [Pass.andThen_snd fun _ _ => chainCode_snd _ _ _]
                exact ihn child hc _ _ _
      rw [events_eq, render_eq]
      by_cases hd : node.disabled = true
      · simp only [nodeEvents, renderNode, if_pos hd]
        rw [skipDisabled_snd]
        exact following alone ledger
      · simp only [nodeEvents, renderNode, if_neg hd]
        cases Kind.ofTypeName? node.kindName with
        | none => exact .refl ledger
        | some kind =>
            have tell := tell_inputs (remarkLines kind node values) (fun input hi => ihv input hi .value true)
              fun input hi => ihs input hi .statement false
            exact Pass.steps_andThen (Script.steps_run tell _ ledger)
              (steps_surround (following alone) kind node _ place)

/-- The records of the inputs of a block tell what rendering them does. -/
theorem tell (o : Options) (b : Block) (remarks : String) :
    Records.Tell o ⟨remarks, renderValues o b.values, renderStatements o b.statements⟩
      ⟨inputEvents o true b.values, inputEvents o false b.statements⟩ :=
  tell_inputs remarks (fun input _ => input.2.steps_render o .value true)
    fun input _ => input.2.steps_render o .statement false

end Block

end BlockScript
