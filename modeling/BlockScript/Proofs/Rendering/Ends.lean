import BlockScript.Proofs.Rendering.Structure

/-! # How scripts end

A script ends with a result or with an error, and what it asks for on the way may be answered in
any way. What is known of the end of a script whatever the answers are is known of all its runs,
together with what is known of the errors in its inputs. -/

namespace BlockScript

namespace Script
variable {α β : Type} {E : GenerateError → Prop}

/-- Whatever the answers are, the result of a script, or its error, is as wanted. -/
def Ends (E : GenerateError → Prop) (Q : α → Prop) : Script α → Prop
  | .done a => Q a
  | .fail error => E error
  | .value _ _ next => ∀ code, (next code).Ends E Q
  | .body _ next => ∀ code, (next code).Ends E Q
  | .hasBody _ next => ∀ answer, (next answer).Ends E Q
  | .remarks next => ∀ text, (next text).Ends E Q
  | .name _ _ next => ∀ given, (next given).Ends E Q
  | .temporary _ next => ∀ given, (next given).Ends E Q
  | .helper _ next => ∀ given, (next given).Ends E Q
  | .require _ next => next.Ends E Q
  | .define _ _ next => next.Ends E Q
  | .clearWidgets next => next.Ends E Q
  | .addWidget _ _ next => next.Ends E Q
  | .widgets next => ∀ made, (next made).Ends E Q

section Laws
variable {Q Q' : α → Prop}

theorem Ends.mono {s : Script α} {E' : GenerateError → Prop} (h : s.Ends E Q)
    (errors : ∀ e, E e → E' e) (results : ∀ a, Q a → Q' a) : s.Ends E' Q' := by
  induction s with
  | done a => exact results a h
  | fail error => exact errors error h
  | value input level next ih => exact fun code => ih code (h code)
  | body input next ih => exact fun code => ih code (h code)
  | hasBody input next ih => exact fun answer => ih answer (h answer)
  | remarks next ih => exact fun text => ih text (h text)
  | name category raw next ih => exact fun given => ih given (h given)
  | temporary base next ih => exact fun given => ih given (h given)
  | helper helper next ih => exact fun given => ih given (h given)
  | require m next ih => exact ih h
  | define key code next ih => exact ih h
  | clearWidgets next ih => exact ih h
  | addWidget widget code next ih => exact ih h
  | widgets next ih => exact fun made => ih made (h made)

/-- Of two scripts in a row, the first ends with what the second needs. -/
@[simp] theorem ends_bind {s : Script α} {f : α → Script β} {Q : β → Prop} :
    (s >>= f).Ends E Q ↔ s.Ends E fun a => (f a).Ends E Q := by
  change (s.bind f).Ends E Q ↔ _
  induction s with
  | done a => exact Iff.rfl
  | fail error => exact Iff.rfl
  | value input level next ih => exact forall_congr' fun code => ih code
  | body input next ih => exact forall_congr' fun code => ih code
  | hasBody input next ih => exact forall_congr' fun answer => ih answer
  | remarks next ih => exact forall_congr' fun text => ih text
  | name category raw next ih => exact forall_congr' fun given => ih given
  | temporary base next ih => exact forall_congr' fun given => ih given
  | helper helper next ih => exact forall_congr' fun given => ih given
  | require m next ih => exact ih
  | define key code next ih => exact ih
  | clearWidgets next ih => exact ih
  | addWidget widget code next ih => exact ih
  | widgets next ih => exact forall_congr' fun made => ih made

theorem ends_ite {c : Prop} [Decidable c] {s t : Script α} :
    (if c then s else t).Ends E Q ↔ (c → s.Ends E Q) ∧ (¬ c → t.Ends E Q) := by
  split <;> simp [*]

/-! The ends of single requests. -/

@[simp] theorem ends_done {a : α} : (done a).Ends E Q ↔ Q a := Iff.rfl

@[simp] theorem ends_fail {error : GenerateError} : (fail error : Script α).Ends E Q ↔ E error :=
  Iff.rfl

@[simp] theorem ends_value? {input : String} {level : Precedence} {Q : Option String → Prop} :
    (value? input level).Ends E Q ↔ ∀ code, Q code := Iff.rfl

@[simp] theorem ends_valueOr {input : String} {level : Precedence} {default : String}
    {Q : String → Prop} : (valueOr input level default).Ends E Q ↔ ∀ code, Q code :=
  ⟨fun h code => h (some code), fun h code => h (code.getD default)⟩

@[simp] theorem ends_bodyOf {input : String} {Q : String → Prop} :
    (bodyOf input).Ends E Q ↔ ∀ code, Q code := Iff.rfl

@[simp] theorem ends_isPlugged {input : String} {Q : Bool → Prop} :
    (isPlugged input).Ends E Q ↔ ∀ answer, Q answer := Iff.rfl

@[simp] theorem ends_ownRemarks {Q : String → Prop} :
    ownRemarks.Ends E Q ↔ ∀ text, Q text := Iff.rfl

@[simp] theorem ends_name {category : NameCategory} {raw : String} {Q : String → Prop} :
    (name category raw done).Ends E Q ↔ ∀ given, Q given := Iff.rfl

@[simp] theorem ends_variableName {raw : String} {Q : String → Prop} :
    (variableName raw).Ends E Q ↔ ∀ given, Q given := Iff.rfl

@[simp] theorem ends_procedureName {raw : String} {Q : String → Prop} :
    (procedureName raw).Ends E Q ↔ ∀ given, Q given := Iff.rfl

@[simp] theorem ends_temporaryName {base : String} {Q : String → Prop} :
    (temporaryName base).Ends E Q ↔ ∀ given, Q given := Iff.rfl

@[simp] theorem ends_helperName {h : Helper} {Q : String → Prop} :
    (helperName h).Ends E Q ↔ ∀ given, Q given := Iff.rfl

@[simp] theorem ends_requireModule {m : Module} {Q : Unit → Prop} :
    (requireModule m).Ends E Q ↔ Q () := Iff.rfl

@[simp] theorem ends_defineAs {key code : String} {Q : Unit → Prop} :
    (defineAs key code).Ends E Q ↔ Q () := Iff.rfl

@[simp] theorem ends_forgetWidgets {Q : Unit → Prop} : forgetWidgets.Ends E Q ↔ Q () := Iff.rfl

@[simp] theorem ends_addConstructor {widget code : String} {Q : Unit → Prop} :
    (addConstructor widget code).Ends E Q ↔ Q () := Iff.rfl

@[simp] theorem ends_constructors {Q : List String → Prop} :
    constructors.Ends E Q ↔ ∀ made, Q made := Iff.rfl

@[simp] theorem ends_postfixValue {code : String} {Q : Emitted → Prop} :
    (postfixValue code).Ends E Q ↔ Q (.value code .unaryPostfix) := Iff.rfl

/-- Scripts for the members of a list, where each of them ends as it should. -/
theorem Ends.mapM {γ : Type} {f : γ → Script β} {xs : List γ} {Q : List β → Prop}
    (h : ∀ x ∈ xs, (f x).Ends E fun _ => True) (all : ∀ ys, Q ys) : (xs.mapM f).Ends E Q := by
  induction xs generalizing Q with
  | nil => exact all []
  | cons x rest ih =>
      rw [List.mapM_cons]
      simp only [ends_bind]
      refine (h x List.mem_cons_self).mono (fun _ he => he) fun y _ => ?_
      exact ih (fun x' hx' => h x' (List.mem_cons_of_mem _ hx')) fun ys => all (y :: ys)

theorem ends_numberedValues {base : String} {level : Precedence} {default : String} {count : Nat}
    {Q : List String → Prop} (all : ∀ codes, Q codes) :
    (numberedValues base level default count).Ends E Q :=
  .mapM (fun _ _ => ends_valueOr.mpr fun _ => trivial) all

end Laws

end Script

/-- Whatever the ledger is, the result of a step, or its error, is as wanted. -/
def Pass.Ends {α : Type} (step : Pass α) (E : GenerateError → Prop) (Q : α → Prop) : Prop :=
  ∀ ledger, match (step ledger).1 with
    | .ok a => Q a
    | .error error => E error

namespace Pass.Ends
variable {α β : Type} {E : GenerateError → Prop} {Q : α → Prop}

theorem trivial (step : Pass α) : step.Ends (fun _ => True) fun _ => True := by
  intro ledger
  split <;> exact True.intro

theorem pure {a : α} (h : Q a) : (Pass.pure a).Ends E Q := fun _ => h

theorem fail {error : GenerateError} (h : E error) : (Pass.fail error : Pass α).Ends E Q :=
  fun _ => h

theorem andThen {step : Pass α} {next : α → Pass β} {Q' : β → Prop} (h : step.Ends E Q)
    (h' : ∀ a, Q a → (next a).Ends E Q') : (step.andThen next).Ends E Q' := by
  intro ledger
  have first := h ledger
  rcases hs : step ledger with ⟨error | a, mid⟩ <;> rw [hs] at first
  · rw [andThen_of_error hs]
    exact first
  · rw [andThen_of_ok hs]
    exact h' a first mid

/-- The result is one that the step gives. -/
theorem reached {step : Pass α} (h : step.Ends E Q) :
    step.Ends E fun a => Q a ∧ ∃ ledger after, step ledger = (.ok a, after) := by
  intro ledger
  have own := h ledger
  rcases hs : step ledger with ⟨error | a, after⟩ <;> rw [hs] at own
  · exact own
  · exact ⟨own, ledger, after, hs⟩

theorem mono {step : Pass α} {E' : GenerateError → Prop} {Q' : α → Prop} (h : step.Ends E Q)
    (errors : ∀ e, E e → E' e) (results : ∀ a, Q a → Q' a) : step.Ends E' Q' := by
  intro ledger
  have own := h ledger
  rcases hs : (step ledger).1 with error | a <;> rw [hs] at own
  · exact errors error own
  · exact results a own

end Pass.Ends

/-- A run ends as its script does, if the inputs fail only as the script may. -/
theorem Script.Ends.run {α : Type} {E : GenerateError → Prop} {Q : α → Prop} {o : Options}
    {s : Surroundings} (values : ∀ input level, (s.valueIn input level).Ends E fun _ => True)
    (bodies : ∀ input, (s.bodyIn o.indent input).Ends E fun _ => True) {script : Script α}
    (h : script.Ends E Q) : (script.run o s).Ends E Q := by
  induction script with
  | done a => exact .pure h
  | fail error => exact .fail h
  | value input level next ih => exact (values input level).andThen fun code _ => ih code (h code)
  | body input next ih => exact (bodies input).andThen fun code _ => ih code (h code)
  | hasBody input next ih => exact ih _ (h _)
  | remarks next ih => exact ih _ (h _)
  | name category raw next ih => exact fun ledger => ih _ (h _) (ledger.getName category raw).2
  | temporary base next ih => exact fun ledger => ih _ (h _) (ledger.distinctName base).2
  | helper helper next ih => exact fun ledger => ih _ (h _) (ledger.provide helper o.indent).2
  | require m next ih => exact fun ledger => ih h (ledger.addImport m)
  | define key code next ih => exact fun ledger => ih h (ledger.setDefinition key code)
  | clearWidgets next ih => exact fun ledger => ih h ledger.clearWidgets
  | addWidget widget code next ih => exact fun ledger => ih h (ledger.putWidget widget code)
  | widgets next ih => exact fun ledger => ih _ (h _) ledger

namespace Block
variable {E : GenerateError → Prop} {o : Options} {b : Block} {place : Place} {alone : Bool}

/-- A disabled block fails where the code after it does. -/
theorem ends_skipDisabled {next : Option (Pass String)}
    (following : (followingCode alone next).Ends E fun _ => True) :
    (skipDisabled alone next).Ends E fun _ => True := by
  cases alone with
  | true => exact .pure trivial
  | false =>
      cases next with
      | none => exact .pure trivial
      | some step => exact following.andThen fun code _ => .pure trivial

/-- The code that follows a block fails where the chain below it does. -/
theorem ends_followingCode {next : Option Block}
    (h : ∀ child ∈ next, (renderChain o child).Ends E fun _ => True) :
    (followingCode alone (renderNext o next)).Ends E fun _ => True := by
  rw [renderNext_eq]
  cases alone with
  | true => exact .pure trivial
  | false =>
      cases next with
      | none => exact .pure trivial
      | some child => exact h child rfl

/-- A block fails because it has no kind, or where the code that follows it, its script or what is
plugged into it does. -/
theorem ends_render_of_parts
    (unknown : b.node.disabled = false → Kind.ofTypeName? b.node.kindName = none →
      E (.unknownKind b.node.id b.node.kindName))
    (following : (followingCode alone (renderNext o b.next)).Ends E fun _ => True)
    (script : b.node.disabled = false → ∀ kind, Kind.ofTypeName? b.node.kindName = some kind →
      (kind.script o b.node).Ends E fun _ => True)
    (values : b.node.disabled = false → ∀ remarks statements input level,
      (Surroundings.valueIn ⟨remarks, renderValues o b.values, statements⟩ input level).Ends E
        fun _ => True)
    (bodies : b.node.disabled = false → ∀ remarks values input,
      (Surroundings.bodyIn ⟨remarks, values, renderStatements o b.statements⟩ o.indent input).Ends E
        fun _ => True) :
    (b.render o place alone).Ends E fun _ => True := by
  rw [render_eq]
  unfold renderNode
  by_cases off : b.node.disabled = true
  · rw [if_pos off]
    exact ends_skipDisabled following
  · rw [if_neg off]
    have on : b.node.disabled = false := eq_false_of_ne_true off
    cases known : Kind.ofTypeName? b.node.kindName with
    | none => exact .fail (unknown on known)
    | some kind =>
        let remarks := remarkLines kind b.node b.values
        have own := Script.Ends.run (values on remarks _) (bodies on remarks _)
          (script on kind known)
        refine own.andThen fun emitted _ => ?_
        cases emitted with
        | value code level => exact .pure trivial
        | statement code => exact following.andThen fun _ _ => .pure trivial
        | nothing => exact .pure trivial

end Block

-- The laws above are all that is needed of it; unfolding it would evaluate the code of a script.
attribute [irreducible] Script.Ends

end BlockScript
