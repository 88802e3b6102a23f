import BlockScript.Proofs.Rendering.Record

/-! # What a script ensures

What is known of the replies to the requests of a script, it turns into something known of its
result. This needs no ledger: the replies of a ledger may be any names. Once the surroundings keep
what is known of the replies, running the script keeps what it ensures. -/

namespace BlockScript

/-- What is known of the replies to requests, each with the events that led to it. -/
structure Replies where
  value : String → Precedence → Option String → List Event → Prop
  body : String → String → List Event → Prop
  plugged : String → Bool → Prop
  /-- May requests, or the script itself, end in an error? -/
  mayFail : Prop

namespace Script
variable {α β : Type}

/-- Whatever the replies are, as far as they are known, the result and the events before it are
as wanted. A body is asked for only where errors may be: any blocks may hang there. -/
def Ensures (r : Replies) : Script α → (α → List Event → Prop) → Prop
  | .done a, Q => Q a []
  | .fail _, _ => r.mayFail
  | .value input level next, Q => ∀ code events, r.value input level code events →
      (next code).Ensures r fun a more => Q a (events ++ more)
  | .body input next, Q => r.mayFail ∧ ∀ code events, r.body input code events →
      (next code).Ensures r fun a more => Q a (events ++ more)
  | .hasBody input next, Q => ∀ answer, r.plugged input answer → (next answer).Ensures r Q
  | .remarks next, Q => ∀ text, (next text).Ensures r Q
  | .name category raw next, Q => ∀ given,
      (next given).Ensures r fun a more => Q a (.name category raw given :: more)
  | .temporary _ next, Q => ∀ given,
      (next given).Ensures r fun a more => Q a (.temporary given :: more)
  | .helper h next, Q => ∀ given,
      (next given).Ensures r fun a more => Q a (.helper h given :: more)
  | .require m next, Q => next.Ensures r fun a more => Q a (.require m :: more)
  | .define key code next, Q => next.Ensures r fun a more => Q a (.define key code :: more)
  | .clearWidgets next, Q => next.Ensures r fun a more => Q a (.clearWidgets :: more)
  | .addWidget widget code next, Q =>
      next.Ensures r fun a more => Q a (.addWidget widget code :: more)
  | .widgets next, Q => ∀ made, (next made).Ensures r Q

variable {r : Replies} {Q Q' : α → List Event → Prop}

/-- A script that ensures something ensures whatever follows from it. -/
theorem Ensures.mono {s : Script α} (h : s.Ensures r Q) (weaker : ∀ a es, Q a es → Q' a es) :
    s.Ensures r Q' := by
  induction s generalizing Q Q' with
  | done a => exact weaker a [] h
  | fail error => exact h
  | value input level next ih =>
      exact fun code events reply => ih code (h code events reply) fun a _ => weaker a _
  | body input next ih =>
      exact ⟨h.1, fun code events reply => ih code (h.2 code events reply) fun a _ => weaker a _⟩
  | hasBody input next ih => exact fun answer reply => ih answer (h answer reply) weaker
  | remarks next ih => exact fun text => ih text (h text) weaker
  | name category raw next ih => exact fun given => ih given (h given) fun a _ => weaker a _
  | temporary base next ih => exact fun given => ih given (h given) fun a _ => weaker a _
  | helper helper next ih => exact fun given => ih given (h given) fun a _ => weaker a _
  | require m next ih => exact ih h fun a _ => weaker a _
  | define key code next ih => exact ih h fun a _ => weaker a _
  | clearWidgets next ih => exact ih h fun a _ => weaker a _
  | addWidget widget code next ih => exact ih h fun a _ => weaker a _
  | widgets next ih => exact fun made => ih made (h made) weaker

/-- Of two scripts in a row, the first has to ensure what the second needs. -/
theorem Ensures.bind {s : Script α} {f : α → Script β} {Q : β → List Event → Prop}
    (h : s.Ensures r fun a es => (f a).Ensures r fun b more => Q b (es ++ more)) :
    (s >>= f).Ensures r Q := by
  change (s.bind f).Ensures r Q
  induction s generalizing Q with
  | done a => exact h
  | fail error => exact h
  | value input level next ih =>
      intro code events reply
      apply ih
      simpa only [List.append_assoc] using h code events reply
  | body input next ih =>
      refine ⟨h.1, fun code events reply => ?_⟩
      apply ih
      simpa only [List.append_assoc] using h.2 code events reply
  | hasBody input next ih => exact fun answer reply => ih answer (h answer reply)
  | remarks next ih => exact fun text => ih text (h text)
  | name category raw next ih => exact fun given => ih given (h given)
  | temporary base next ih => exact fun given => ih given (h given)
  | helper helper next ih => exact fun given => ih given (h given)
  | require m next ih => exact ih h
  | define key code next ih => exact ih h
  | clearWidgets next ih => exact ih h
  | addWidget widget code next ih => exact ih h
  | widgets next ih => exact fun made => ih made (h made)

/-- Where errors may be, every script ends somehow. -/
theorem Ensures.trivial (fails : r.mayFail) (s : Script α) : s.Ensures r fun _ _ => True := by
  induction s with
  | done a => exact True.intro
  | fail error => exact fails
  | value input level next ih => exact fun code _ _ => ih code
  | body input next ih => exact ⟨fails, fun code _ _ => ih code⟩
  | hasBody input next ih => exact fun answer _ => ih answer
  | remarks next ih => exact fun text => ih text
  | name category raw next ih => exact fun given => ih given
  | temporary base next ih => exact fun given => ih given
  | helper helper next ih => exact fun given => ih given
  | require m next ih => exact ih
  | define key code next ih => exact ih
  | clearWidgets next ih => exact ih
  | addWidget widget code next ih => exact ih
  | widgets next ih => exact fun made => ih made

/-- What the second of two scripts ensures by itself, both ensure. -/
theorem Ensures.after (fails : r.mayFail) {s : Script α} {f : α → Script β}
    {Q : β → List Event → Prop} (grows : ∀ b {es more}, Q b es → Q b (more ++ es))
    (h : ∀ a, (f a).Ensures r Q) : (s >>= f).Ensures r Q := by
  refine Ensures.bind ((Ensures.trivial fails s).mono fun a es _ => ?_)
  exact (h a).mono fun b more hb => grows b hb

/-- Scripts for the members of a list ensure, for each member, what its script ensures. -/
theorem Ensures.mapM {γ : Type} {f : γ → Script β} {P : γ → β → List Event → Prop}
    {xs : List γ} (h : ∀ x ∈ xs, (f x).Ensures r (P x)) :
    (xs.mapM f).Ensures r fun ys es =>
      ∀ x ∈ xs, ∃ y ∈ ys, ∃ own, own ⊆ es ∧ P x y own := by
  induction xs with
  | nil =>
      intro x hx
      exact absurd hx List.not_mem_nil
  | cons x rest ih =>
      rw [List.mapM_cons]
      refine Ensures.bind ((h x List.mem_cons_self).mono fun y es hy => ?_)
      refine Ensures.bind ((ih fun x' hx' => h x' (List.mem_cons_of_mem _ hx')).mono ?_)
      intro ys more hys x' hx'
      rw [List.append_nil]
      rcases List.mem_cons.mp hx' with rfl | hx'
      · exact ⟨y, List.mem_cons_self, es, List.subset_append_left _ _, hy⟩
      · obtain ⟨y', hy', own, hsub, hP⟩ := hys x' hx'
        exact ⟨y', List.mem_cons_of_mem _ hy', own,
          List.Subset.trans hsub (List.subset_append_right _ _), hP⟩

end Script

/-- Whatever the ledger is, a step that succeeds gives a result as wanted, with the events before
it; and it only fails where that may be. -/
def Pass.Gives {α : Type} (step : Pass α) (record : Ledger → List Event) (mayFail : Prop)
    (Q : α → List Event → Prop) : Prop :=
  ∀ ledger, match step ledger with
    | (.ok a, _) => Q a (record ledger)
    | (.error _, _) => mayFail

namespace Pass.Gives
variable {α β : Type} {mayFail : Prop} {Q : α → List Event → Prop}

theorem pure {a : α} (h : Q a []) : (Pass.pure a).Gives (fun _ => []) mayFail Q :=
  fun _ => h

theorem mono {step : Pass α} {record : Ledger → List Event} {Q' : α → List Event → Prop}
    (h : step.Gives record mayFail Q) (weaker : ∀ a es, Q a es → Q' a es) :
    step.Gives record mayFail Q' := by
  intro ledger
  have hl := h ledger
  rcases hs : step ledger with ⟨_ | a, after⟩ <;> rw [hs] at hl
  · exact hl
  · exact weaker a _ hl

theorem andThen {step : Pass α} {next : α → Pass β} {record : Ledger → List Event}
    {nextRecord : α → Ledger → List Event} {Q' : β → List Event → Prop}
    (h : step.Gives record mayFail Q)
    (h' : ∀ a es, Q a es →
      (next a).Gives (nextRecord a) mayFail fun b more => Q' b (es ++ more)) :
    (step.andThen next).Gives (fun ledger => record ledger ++ step.eventsAfter nextRecord ledger)
      mayFail Q' := by
  intro ledger
  have hl := h ledger
  rcases hs : step ledger with ⟨error | a, after⟩ <;> rw [hs] at hl
  · rw [andThen_of_error hs]
    exact hl
  · rw [andThen_of_ok hs]
    simp only [eventsAfter, hs]
    exact h' a _ hl after

/-- A second step that asks for nothing adds no events. -/
theorem andThen_quiet {step : Pass α} {next : α → Pass β} {record : Ledger → List Event}
    {Q' : β → List Event → Prop} (h : step.Gives record mayFail Q)
    (h' : ∀ a es, Q a es → (next a).Gives (fun _ => []) mayFail fun b _ => Q' b es) :
    (step.andThen next).Gives record mayFail Q' := by
  intro ledger
  have hl := h ledger
  rcases hs : step ledger with ⟨error | a, after⟩ <;> rw [hs] at hl
  · rw [andThen_of_error hs]
    exact hl
  · rw [andThen_of_ok hs]
    exact h' a _ hl after

end Pass.Gives

/-- Do the surroundings keep what is known of the replies? -/
structure Replies.Hold (r : Replies) (o : Options) (s : Surroundings) (records : Records) :
    Prop where
  value : ∀ input level,
    (s.valueIn input level).Gives (eventsIn records.values input) r.mayFail (r.value input level)
  body : r.mayFail → ∀ input,
    (s.bodyIn o.indent input).Gives (eventsIn records.statements input) r.mayFail (r.body input)
  plugged : ∀ input, r.plugged input (s.statements.get? input).isSome

/-- Running a script gives what the script ensures. -/
theorem Script.Ensures.run {α : Type} {r : Replies} {o : Options} {s : Surroundings}
    {records : Records} (hold : r.Hold o s records) {script : Script α}
    {Q : α → List Event → Prop} (h : script.Ensures r Q) :
    (script.run o s).Gives (script.events o s records) r.mayFail Q := by
  induction script generalizing Q with
  | done a => exact Pass.Gives.pure h
  | fail error => exact fun _ => h
  | value input level next ih =>
      exact (hold.value input level).andThen fun code events reply => ih code (h code events reply)
  | body input next ih =>
      exact (hold.body h.1 input).andThen fun code events reply => ih code (h.2 code events reply)
  | hasBody input next ih => exact ih _ (h _ (hold.plugged input))
  | remarks next ih => exact ih _ (h _)
  | name category raw next ih => exact fun ledger => ih _ (h _) (ledger.getName category raw).2
  | temporary base next ih => exact fun ledger => ih _ (h _) (ledger.distinctName base).2
  | helper helper next ih => exact fun ledger => ih _ (h _) (ledger.provide helper o.indent).2
  | require m next ih => exact fun ledger => ih h (ledger.addImport m)
  | define key code next ih => exact fun ledger => ih h (ledger.setDefinition key code)
  | clearWidgets next ih => exact fun ledger => ih h ledger.clearWidgets
  | addWidget widget code next ih => exact fun ledger => ih h (ledger.putWidget widget code)
  | widgets next ih => exact fun ledger => ih _ (h _) ledger

/-! Blocks: what is known of the blocks plugged into a block is known of the replies to it. -/

/-- Where errors may be, every step gives something. -/
theorem Pass.Gives.trivial {α : Type} {mayFail : Prop} (fails : mayFail) (step : Pass α)
    (record : Ledger → List Event) : step.Gives record mayFail fun _ _ => True := by
  intro ledger
  rcases step ledger with ⟨_ | a, after⟩
  · exact fails
  · exact True.intro

namespace Block
variable {o : Options} {mayFail : Prop}

/-- What the block in a value input gives is known of the code there. -/
theorem gives_valueIn {values : List (String × Block)} {input : String} {level : Precedence}
    {remarks : String} {statements : Table (Pass String)}
    {Q : Option String → List Event → Prop} (missing : Table.get? values input = none → Q none [])
    (filled : ∀ child, Table.get? values input = some child →
      (child.render o .value true).Gives (child.events o true) mayFail fun emitted es =>
        match emitted with
        | .value code inner =>
            Q (if code = "" then none else some (Precedence.wrap code inner level)) es
        | .nothing => Q none es
        | .statement _ => mayFail) :
    (Surroundings.valueIn ⟨remarks, renderValues o values, statements⟩ input level).Gives
      (eventsIn (inputEvents o true values) input) mayFail Q := by
  intro ledger
  simp only [Surroundings.valueIn, eventsIn, get?_renderValues, get?_inputEvents]
  cases hc : Table.get? values input with
  | none => exact missing hc
  | some child =>
      refine (filled child hc).andThen_quiet (fun emitted es h => ?_) ledger
      cases emitted with
      | value code inner => exact fun _ => h
      | statement code => exact fun _ => h
      | nothing => exact fun _ => h

/-- What the chain in a statement input gives is known of the code there, before it is
indented. -/
theorem gives_bodyIn {statements : List (String × Block)} {input : String} {remarks : String}
    {values : Table (Node × Pass Emitted)} {Q : String → List Event → Prop}
    (missing : Table.get? statements input = none → Q "" [])
    (filled : ∀ first, Table.get? statements input = some first →
      (renderChain o first).Gives (first.events o false) mayFail fun code es =>
        Q (Text.prefixLines code o.indent) es) :
    (Surroundings.bodyIn ⟨remarks, values, renderStatements o statements⟩ o.indent input).Gives
      (eventsIn (inputEvents o false statements) input) mayFail Q := by
  intro ledger
  simp only [Surroundings.bodyIn, eventsIn, get?_renderStatements, get?_inputEvents]
  cases hc : Table.get? statements input with
  | none => exact missing hc
  | some first => exact (filled first hc).andThen_quiet (fun _ _ h _ => h) ledger

/-- A chain gives what its first block gives, unless that is a value. -/
theorem gives_renderChain {first : Block} {Q : String → List Event → Prop}
    (h : (first.render o .statement false).Gives (first.events o false) mayFail fun emitted es =>
      match emitted with
      | .statement code => Q code es
      | .nothing => Q "" es
      | .value _ _ => mayFail) :
    (renderChain o first).Gives (first.events o false) mayFail Q := by
  refine h.andThen_quiet fun emitted es he => ?_
  cases emitted with
  | value code level => exact fun _ => he
  | statement code => exact fun _ => he
  | nothing => exact fun _ => he

/-- What the script of a block ensures, and what is known of the code after it, the block
gives. -/
theorem gives_render {b : Block} {kind : Kind} {r : Replies} {place : Place} {alone : Bool}
    (on : b.node.disabled = false) (known : Kind.ofTypeName? b.node.kindName = some kind)
    (hold : ∀ remarks, r.Hold o
      ⟨remarks, renderValues o b.values, renderStatements o b.statements⟩
      ⟨inputEvents o true b.values, inputEvents o false b.statements⟩)
    {P Q : Emitted → List Event → Prop} (script : (kind.script o b.node).Ensures r P)
    (around : ∀ remarks emitted es, P emitted es →
      (surround o kind b.node remarks (renderNext o b.next) place alone emitted).Gives
        (surroundEvents alone (nextEvents o b.next) emitted) r.mayFail
          fun whole more => Q whole (es ++ more)) :
    (b.render o place alone).Gives (b.events o alone) r.mayFail Q := by
  rw [render_eq, events_eq]
  intro ledger
  simp only [renderNode, nodeEvents, on, known, Bool.false_eq_true, if_false]
  exact (script.run (hold _)).andThen (around _) ledger

/-- The statement of a block stands whole in what it gives; the code after it follows. -/
theorem gives_surround_statement (kind : Kind) (n : Node) (remarks : String)
    {next : Option Block} (place : Place) {alone : Bool} (text : String)
    {P : String → List Event → Prop}
    (following : (followingCode alone (renderNext o next)).Gives
      (followingEvents alone (nextEvents o next)) mayFail P) :
    (surround o kind n remarks (renderNext o next) place alone (.statement text)).Gives
      (surroundEvents alone (nextEvents o next) (.statement text)) mayFail fun whole es =>
        ∃ before after last, whole = .statement (before ++ text ++ (after ++ last)) ∧ P last es := by
  have templates : ∃ before after, withTemplates o kind n text = before ++ text ++ after := by
    unfold withTemplates
    split
    · exact ⟨"", "", by simp⟩
    · exact ⟨_, _, rfl⟩
  obtain ⟨before, after, ht⟩ := templates
  refine following.andThen_quiet fun last es h => Pass.Gives.pure ?_
  refine ⟨remarksAt place remarks ++ before, after, last, ?_, h⟩
  simp [ht, String.append_assoc]

/-- A disabled block gives what follows it. -/
theorem gives_render_disabled {b next : Block} {place : Place}
    (off : b.node.disabled = true) (hn : b.next = some next) {P : String → List Event → Prop}
    (h : (renderChain o next).Gives (next.events o false) mayFail P) :
    (b.render o place false).Gives (b.events o false) mayFail fun emitted es =>
      ∃ code, emitted = .statement code ∧ P code es := by
  have chain : ((renderChain o next).andThen fun code => .pure (Emitted.statement code)).Gives
      (next.events o false) mayFail fun emitted es => ∃ code, emitted = .statement code ∧ P code es :=
    h.andThen_quiet fun code es hp => Pass.Gives.pure ⟨code, rfl, hp⟩
  rw [render_eq, events_eq, hn]
  intro ledger
  simp only [renderNode, nodeEvents, off, if_true]
  exact chain ledger

end Block

end BlockScript
