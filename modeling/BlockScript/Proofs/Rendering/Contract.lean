import BlockScript.Proofs.Names.Provenance

/-! # Contracts

A script relies on what it is given, the code of plugged-in blocks and the answers of the ledger,
and owes something for it: what it asks for is in order, and so is the error it may end with. If
the surroundings keep their side, running the script keeps the other, whether it succeeds or fails
half-way. -/

namespace BlockScript

open Names

/-- What a script may rely on, and what it owes. -/
structure Contract where
  /-- Known of the code in a value input of a certain name. -/
  value : String → String → Prop
  /-- Known of the code in a statement input. -/
  body : String → Prop
  /-- Known of the comment lines. -/
  remarks : String → Prop
  /-- Known of a request, once it is answered. -/
  relies : Event → Prop
  /-- Owed of a request. -/
  owes : Event → Prop
  /-- Owed of an error. -/
  error : GenerateError → Prop

/-- What holds of all members of a list that are related to some others. -/
theorem forall_mem_of_forall₂ {γ β : Type} {R : γ → β → Prop} {P : β → Prop} {xs : List γ}
    {ys : List β} (h : List.Forall₂ R xs ys) (related : ∀ x y, R x y → P y) : ∀ y ∈ ys, P y := by
  induction h with
  | nil => exact fun y hy => absurd hy List.not_mem_nil
  | cons head _ ih => exact List.forall_mem_cons.mpr ⟨related _ _ head, ih⟩

namespace Script
variable {α β : Type}

/-- The script keeps the contract, and its result is as wanted. -/
def Honours (c : Contract) : Script α → (α → Prop) → Prop
  | .done a, Q => Q a
  | .fail error, _ => c.error error
  | .value input _ next, Q => ∀ code : Option String, (∀ text ∈ code, c.value input text) →
      (next code).Honours c Q
  | .body _ next, Q => ∀ code, c.body code → (next code).Honours c Q
  | .hasBody _ next, Q => ∀ answer, (next answer).Honours c Q
  | .remarks next, Q => ∀ text, c.remarks text → (next text).Honours c Q
  | .name category raw next, Q => ∀ given, IsMadeOf raw given →
      c.owes (.name category raw given) ∧
        (c.relies (.name category raw given) → (next given).Honours c Q)
  | .temporary base next, Q => ∀ given, IsMadeOf base given →
      c.owes (.temporary given) ∧ (c.relies (.temporary given) → (next given).Honours c Q)
  | .helper h next, Q => ∀ given, IsMadeOf h.key given →
      c.owes (.helper h given) ∧ (c.relies (.helper h given) → (next given).Honours c Q)
  | .require m next, Q => c.owes (.require m) ∧ (c.relies (.require m) → next.Honours c Q)
  | .define key code next, Q =>
      c.owes (.define key code) ∧ (c.relies (.define key code) → next.Honours c Q)
  | .clearWidgets next, Q => c.owes .clearWidgets ∧ (c.relies .clearWidgets → next.Honours c Q)
  | .addWidget widget code next, Q =>
      c.owes (.addWidget widget code) ∧ (c.relies (.addWidget widget code) → next.Honours c Q)
  | .widgets next, Q => ∀ made : List String,
      (∀ code ∈ made, ∃ widget, c.owes (.addWidget widget code)) → (next made).Honours c Q

namespace Honours
variable {c : Contract} {Q Q' : α → Prop}

theorem mono {s : Script α} (h : s.Honours c Q) (weaker : ∀ a, Q a → Q' a) : s.Honours c Q' := by
  induction s with
  | done a => exact weaker a h
  | fail error => exact h
  | value input level next ih => exact fun code hc => ih code (h code hc)
  | body input next ih => exact fun code hc => ih code (h code hc)
  | hasBody input next ih => exact fun answer => ih answer (h answer)
  | remarks next ih => exact fun text ht => ih text (h text ht)
  | name category raw next ih =>
      exact fun given made => (h given made).imp_right fun hn hr => ih given (hn hr)
  | temporary base next ih =>
      exact fun given made => (h given made).imp_right fun hn hr => ih given (hn hr)
  | helper helper next ih =>
      exact fun given made => (h given made).imp_right fun hn hr => ih given (hn hr)
  | require m next ih => exact h.imp_right fun hn hr => ih (hn hr)
  | define key code next ih => exact h.imp_right fun hn hr => ih (hn hr)
  | clearWidgets next ih => exact h.imp_right fun hn hr => ih (hn hr)
  | addWidget widget code next ih => exact h.imp_right fun hn hr => ih (hn hr)
  | widgets next ih => exact fun made hm => ih made (h made hm)

/-- Of two scripts in a row, the first has to bring about what the second needs. -/
theorem bind {s : Script α} {f : α → Script β} {Q : β → Prop}
    (h : s.Honours c fun a => (f a).Honours c Q) : (s >>= f).Honours c Q := by
  change (s.bind f).Honours c Q
  induction s with
  | done a => exact h
  | fail error => exact h
  | value input level next ih => exact fun code hc => ih code (h code hc)
  | body input next ih => exact fun code hc => ih code (h code hc)
  | hasBody input next ih => exact fun answer => ih answer (h answer)
  | remarks next ih => exact fun text ht => ih text (h text ht)
  | name category raw next ih =>
      exact fun given made => (h given made).imp_right fun hn hr => ih given (hn hr)
  | temporary base next ih =>
      exact fun given made => (h given made).imp_right fun hn hr => ih given (hn hr)
  | helper helper next ih =>
      exact fun given made => (h given made).imp_right fun hn hr => ih given (hn hr)
  | require m next ih => exact h.imp_right fun hn hr => ih (hn hr)
  | define key code next ih => exact h.imp_right fun hn hr => ih (hn hr)
  | clearWidgets next ih => exact h.imp_right fun hn hr => ih (hn hr)
  | addWidget widget code next ih => exact h.imp_right fun hn hr => ih (hn hr)
  | widgets next ih => exact fun made hm => ih made (h made hm)

/-- A script and then another, each with its own result. -/
theorem andThen {s : Script α} {f : α → Script β} {P : α → Prop} {Q : β → Prop}
    (h : s.Honours c P) (h' : ∀ a, P a → (f a).Honours c Q) : (s >>= f).Honours c Q :=
  bind (h.mono h')

/-- A script for each member of a list. -/
theorem mapM {γ : Type} {f : γ → Script β} {P : γ → β → Prop} {xs : List γ}
    (h : ∀ x ∈ xs, (f x).Honours c (P x)) : (xs.mapM f).Honours c (List.Forall₂ P xs) := by
  induction xs with
  | nil => exact List.Forall₂.nil
  | cons x rest ih =>
      rw [List.mapM_cons]
      refine andThen (h x List.mem_cons_self) fun y hy => ?_
      refine andThen (ih fun x' hx' => h x' (List.mem_cons_of_mem _ hx')) fun ys hys => ?_
      exact List.Forall₂.cons hy hys

/-- Of many scripts each has a result as wanted. -/
theorem mapM_all {γ : Type} {f : γ → Script β} {P : β → Prop} {xs : List γ}
    (h : ∀ x ∈ xs, (f x).Honours c P) : (xs.mapM f).Honours c fun ys => ∀ y ∈ ys, P y :=
  (mapM h).mono fun _ hys => forall_mem_of_forall₂ hys fun _ _ hy => hy

/-- The code in a value input, if the default does as well. -/
theorem valueOr {input : String} {level : Precedence} {default : String}
    (hd : c.value input default) : (valueOr input level default).Honours c (c.value input) := by
  intro code hc
  cases code with
  | none => exact hd
  | some text => exact hc text rfl

/-- The code in numbered inputs, each as is known of its own. -/
theorem numberedValues {base : String} {level : Precedence} {default : String} {count : Nat}
    (hd : ∀ input, c.value input default) :
    (numberedValues base level default count).Honours c
      (List.Forall₂ (fun i => c.value (base ++ toString i)) (List.range count)) :=
  mapM fun _ _ => valueOr (hd _)

end Honours

end Script

/-! Running a script. -/

/-- Is a result, or an error, as the contract has it? -/
def Contract.Outcome {α : Type} (c : Contract) (Q : α → Prop) : Except GenerateError α → Prop
  | .ok a => Q a
  | .error error => c.error error

/-- A ledger whose names are made of what they stand for, and whose constructors are in order. -/
structure Contract.Fits (c : Contract) (ledger : Ledger) : Prop where
  derived : ledger.Derived
  made : ∀ code ∈ ledger.widgets.values, ∃ widget, c.owes (.addWidget widget code)

/-- A step keeps the contract in whatever ledger it starts, if the answers of the ledger do. -/
def Pass.Honours {α : Type} (c : Contract) (step : Pass α) (record : Ledger → List Event)
    (Q : α → Prop) : Prop :=
  ∀ ledger, c.Fits ledger → (∀ e ∈ record ledger, c.relies e) →
    (∀ e ∈ record ledger, c.owes e) ∧ c.Fits (step ledger).2 ∧ c.Outcome Q (step ledger).1

namespace Pass.Honours
variable {α β : Type} {c : Contract} {Q : α → Prop}

theorem pure {a : α} (h : Q a) : (Pass.pure a).Honours c (fun _ => []) Q :=
  fun _ fits _ => ⟨fun _ he => absurd he List.not_mem_nil, fits, h⟩

theorem fail {error : GenerateError} (h : c.error error) :
    (Pass.fail error : Pass α).Honours c (fun _ => []) Q :=
  fun _ fits _ => ⟨fun _ he => absurd he List.not_mem_nil, fits, h⟩

theorem mono {step : Pass α} {record : Ledger → List Event} {Q' : α → Prop}
    (h : step.Honours c record Q) (weaker : ∀ a, Q a → Q' a) : step.Honours c record Q' := by
  intro ledger fits relied
  obtain ⟨owed, fits', outcome⟩ := h ledger fits relied
  refine ⟨owed, fits', ?_⟩
  rcases hs : (step ledger).1 with error | a <;> rw [hs] at outcome
  · exact outcome
  · exact weaker a outcome

theorem andThen {step : Pass α} {next : α → Pass β} {record : Ledger → List Event}
    {nextRecord : α → Ledger → List Event} {Q' : β → Prop} (h : step.Honours c record Q)
    (h' : ∀ a, Q a → (next a).Honours c (nextRecord a) Q') :
    (step.andThen next).Honours c
      (fun ledger => record ledger ++ step.eventsAfter nextRecord ledger) Q' := by
  intro ledger fits relied
  obtain ⟨owed, fits', outcome⟩ :=
    h ledger fits fun e he => relied e (List.mem_append_left _ he)
  rcases hs : step ledger with ⟨error | a, mid⟩ <;> rw [hs] at outcome fits'
  · rw [andThen_of_error hs]
    simp only [eventsAfter, hs, List.append_nil] at relied ⊢
    exact ⟨owed, fits', outcome⟩
  · rw [andThen_of_ok hs]
    simp only [eventsAfter, hs] at relied ⊢
    obtain ⟨owed', fits'', outcome'⟩ :=
      h' a outcome mid fits' fun e he => relied e (List.mem_append_right _ he)
    refine ⟨fun e he => ?_, fits'', outcome'⟩
    rcases List.mem_append.mp he with he | he
    · exact owed e he
    · exact owed' e he

/-- A second step that asks for nothing adds no events. -/
theorem andThen_quiet {step : Pass α} {next : α → Pass β} {record : Ledger → List Event}
    {Q' : β → Prop} (h : step.Honours c record Q)
    (h' : ∀ a, Q a → (next a).Honours c (fun _ => []) Q') :
    (step.andThen next).Honours c record Q' := by
  have whole := h.andThen h'
  intro ledger
  have none : step.eventsAfter (fun _ _ => []) ledger = [] := by
    unfold eventsAfter
    split <;> rfl
  simpa only [none, List.append_nil] using whole ledger

/-- Code and texts that scripts rely on do not matter to a step. -/
theorem of_contract {step : Pass α} {record : Ledger → List Event}
    (h : step.Honours c record Q) (d : Contract) (relies : d.relies = c.relies) (owes : d.owes = c.owes)
    (error : d.error = c.error) : step.Honours d record Q := by
  intro ledger fits relied
  rw [relies] at relied
  obtain ⟨owed, fits', outcome⟩ := h ledger ⟨fits.derived, owes ▸ fits.made⟩ relied
  refine ⟨owes ▸ owed, ⟨fits'.derived, owes ▸ fits'.made⟩, ?_⟩
  rcases hs : (step ledger).1 with e | a <;> rw [hs] at outcome
  · change d.error e
    rw [error]
    exact outcome
  · exact outcome

end Pass.Honours

/-- Do the surroundings keep their side of a contract? -/
structure Contract.Holds (c : Contract) (o : Options) (s : Surroundings) (r : Records) : Prop where
  remarks : c.remarks s.remarks
  value : ∀ input level, (s.valueIn input level).Honours c (eventsIn r.values input) fun code =>
    ∀ text ∈ code, c.value input text
  body : ∀ input, (s.bodyIn o.indent input).Honours c (eventsIn r.statements input) c.body

section Run
variable {α : Type} {c : Contract} {Q : α → Prop}

/-- One request, and then what follows it. -/
theorem Pass.Honours.request {e : Event} {mid : Ledger} {next : Pass α}
    {record : Ledger → List Event} (owed : c.owes e) (fits : c.Fits mid)
    (relied : ∀ e' ∈ e :: record mid, c.relies e')
    (rest : c.relies e → next.Honours c record Q) :
    (∀ e' ∈ e :: record mid, c.owes e') ∧ c.Fits (next mid).2 ∧ c.Outcome Q (next mid).1 := by
  obtain ⟨owed', fits', outcome⟩ := rest (relied e List.mem_cons_self) mid fits fun e' he' =>
    relied e' (List.mem_cons_of_mem _ he')
  refine ⟨fun e' he' => ?_, fits', outcome⟩
  rcases List.mem_cons.mp he' with rfl | he'
  · exact owed
  · exact owed' e' he'

theorem Table.mem_values_of_mem_put {α : Type} {t : Table α} {key : String} {value other : α}
    (h : other ∈ (t.put key value).values) : other = value ∨ other ∈ t.values := by
  induction t with
  | nil => exact .inl (by simpa [put, values] using h)
  | cons entry rest ih =>
      rw [put] at h
      split at h
      · exact (List.mem_cons.mp h).imp_right (List.mem_cons_of_mem _)
      · rcases List.mem_cons.mp h with h | h
        · exact .inr (h ▸ List.mem_cons_self)
        · exact (ih h).imp_right (List.mem_cons_of_mem _)

theorem Contract.Fits.putWidget {ledger : Ledger} (fits : c.Fits ledger) {widget code : String}
    (owed : c.owes (.addWidget widget code)) : c.Fits (ledger.putWidget widget code) := by
  refine ⟨fits.derived.of_eq rfl rfl, fun made hm => ?_⟩
  rcases Table.mem_values_of_mem_put hm with rfl | hm
  · exact ⟨widget, owed⟩
  · exact fits.made made hm

/-- Running a script keeps the contract that the script keeps. -/
theorem Script.Honours.run {o : Options} {s : Surroundings} {r : Records} (holds : c.Holds o s r)
    {script : Script α} (h : script.Honours c Q) :
    (script.run o s).Honours c (script.events o s r) Q := by
  induction script with
  | done a => exact .pure h
  | fail error => exact .fail h
  | value input level next ih =>
      exact (holds.value input level).andThen fun code hc => ih code (h code hc)
  | body input next ih => exact (holds.body input).andThen fun code hc => ih code (h code hc)
  | hasBody input next ih => exact ih _ (h _)
  | remarks next ih => exact ih _ (h _ holds.remarks)
  | name category raw next ih =>
      intro ledger fits relied
      obtain ⟨made, derived⟩ := fits.derived.getName category raw
      obtain ⟨owed, rest⟩ := h _ made
      exact Pass.Honours.request owed ⟨derived, fits.made⟩ relied fun hr => ih _ (rest hr)
  | temporary base next ih =>
      intro ledger fits relied
      obtain ⟨owed, rest⟩ := h _ (ledger.names.isMadeOf_fresh base)
      have fits' : c.Fits (ledger.distinctName base).2 :=
        ⟨fits.derived.of_eq rfl rfl, fits.made⟩
      exact Pass.Honours.request owed fits' relied fun hr => ih _ (rest hr)
  | helper helper next ih =>
      intro ledger fits relied
      obtain ⟨made, derived⟩ := fits.derived.provide helper o.indent
      obtain ⟨owed, rest⟩ := h _ made
      exact Pass.Honours.request owed ⟨derived, fits.made⟩ relied fun hr => ih _ (rest hr)
  | require m next ih =>
      intro ledger fits relied
      have fits' : c.Fits (ledger.addImport m) := ⟨fits.derived.of_eq rfl rfl, fits.made⟩
      exact Pass.Honours.request h.1 fits' relied fun hr => ih (h.2 hr)
  | define key code next ih =>
      intro ledger fits relied
      have fits' : c.Fits (ledger.setDefinition key code) :=
        ⟨fits.derived.of_eq rfl rfl, fits.made⟩
      exact Pass.Honours.request h.1 fits' relied fun hr => ih (h.2 hr)
  | clearWidgets next ih =>
      intro ledger fits relied
      have fits' : c.Fits ledger.clearWidgets :=
        ⟨fits.derived.of_eq rfl rfl, fun code hc => absurd hc List.not_mem_nil⟩
      exact Pass.Honours.request h.1 fits' relied fun hr => ih (h.2 hr)
  | addWidget widget code next ih =>
      intro ledger fits relied
      exact Pass.Honours.request h.1 (fits.putWidget h.1) relied fun hr => ih (h.2 hr)
  | widgets next ih =>
      intro ledger fits relied
      exact ih _ (h _ fits.made) ledger fits relied

end Run

end BlockScript
