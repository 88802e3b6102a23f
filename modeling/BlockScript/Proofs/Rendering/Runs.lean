import Mathlib.Data.List.Forall2
import BlockScript.Proofs.Rendering.Record

/-! # Runs of scripts

A run without an error is known by its result, by the ledger that it ends with and by its events.
Of two scripts in a row each has a run of its own, so the run of a script is taken apart request by
request. -/

namespace BlockScript

namespace Pass
variable {α β γ : Type}

theorem andThen_assoc (step : Pass α) (next : α → Pass β) (last : β → Pass γ) :
    andThen (andThen step next) last = andThen step fun a => andThen (next a) last := by
  funext ledger
  unfold andThen
  rcases step ledger with ⟨error | a, mid⟩ <;> rfl

@[simp] theorem andThen_pure (step : Pass α) : andThen step pure = step := by
  funext ledger
  unfold andThen
  rcases step ledger with ⟨error | a, mid⟩ <;> rfl

/-- The events after two steps in a row. -/
theorem eventsAfter_andThen (step : Pass α) (next : α → Pass β) (first : α → Ledger → List Event)
    (last : β → Ledger → List Event) (ledger : Ledger) :
    step.eventsAfter (fun a mid => first a mid ++ (next a).eventsAfter last mid) ledger =
      step.eventsAfter first ledger ++ (andThen step next).eventsAfter last ledger := by
  unfold eventsAfter andThen
  rcases step ledger with ⟨error | a, mid⟩ <;> rfl

end Pass

namespace Script
variable {α β : Type} {o : Options} {s : Surroundings} {r : Records}

theorem run_bind (script : Script α) (f : α → Script β) :
    (script >>= f).run o s = (script.run o s).andThen fun a => (f a).run o s := by
  change (script.bind f).run o s = _
  induction script with
  | done a => rfl
  | fail error => rfl
  | value input level next ih => simp only [bind, run, ih, Pass.andThen_assoc]
  | body input next ih => simp only [bind, run, ih, Pass.andThen_assoc]
  | hasBody input next ih => exact ih _
  | remarks next ih => exact ih _
  | name category raw next ih => exact funext fun _ => congrFun (ih _) _
  | temporary base next ih => exact funext fun _ => congrFun (ih _) _
  | helper h next ih => exact funext fun _ => congrFun (ih _) _
  | require m next ih => exact funext fun _ => congrFun ih _
  | define key code next ih => exact funext fun _ => congrFun ih _
  | clearWidgets next ih => exact funext fun _ => congrFun ih _
  | addWidget widget code next ih => exact funext fun _ => congrFun ih _
  | widgets next ih => exact funext fun _ => congrFun (ih _) _

theorem events_bind (script : Script α) (f : α → Script β) (ledger : Ledger) :
    (script >>= f).events o s r ledger =
      script.events o s r ledger ++
        (script.run o s).eventsAfter (fun a => (f a).events o s r) ledger := by
  change (script.bind f).events o s r ledger = _
  induction script generalizing ledger with
  | done a => rfl
  | fail error => rfl
  | value input level next ih =>
      have rest := funext fun code => funext fun mid => ih code mid
      simp only [bind, events, run]
      rw [rest, Pass.eventsAfter_andThen, List.append_assoc]
  | body input next ih =>
      have rest := funext fun code => funext fun mid => ih code mid
      simp only [bind, events, run]
      rw [rest, Pass.eventsAfter_andThen, List.append_assoc]
  | hasBody input next ih => exact ih _ ledger
  | remarks next ih => exact ih _ ledger
  | name category raw next ih => exact congrArg (_ :: ·) (ih _ _)
  | temporary base next ih => exact congrArg (_ :: ·) (ih _ _)
  | helper h next ih => exact congrArg (_ :: ·) (ih _ _)
  | require m next ih => exact congrArg (_ :: ·) (ih _)
  | define key code next ih => exact congrArg (_ :: ·) (ih _)
  | clearWidgets next ih => exact congrArg (_ :: ·) (ih _)
  | addWidget widget code next ih => exact congrArg (_ :: ·) (ih _)
  | widgets next ih => exact ih _ ledger

/-- A script runs without an error from one ledger to another, with a result and some events. -/
structure Runs (o : Options) (s : Surroundings) (r : Records) (script : Script α)
    (ledger : Ledger) (a : α) (after : Ledger) (events : List Event) : Prop where
  run : script.run o s ledger = (.ok a, after)
  events : script.events o s r ledger = events

namespace Runs
variable {ledger after : Ledger} {events : List Event}

/-- The run of two scripts in a row is a run of the first and then one of the second. -/
theorem of_bind {script : Script α} {f : α → Script β} {b : β}
    (h : (script >>= f).Runs o s r ledger b after events) :
    ∃ a mid first rest, script.Runs o s r ledger a mid first ∧
      (f a).Runs o s r mid b after rest ∧ events = first ++ rest := by
  obtain ⟨run, rfl⟩ := h
  rw [run_bind] at run
  obtain ⟨a, mid, hfirst, hrest⟩ := Pass.andThen_eq_ok.mp run
  refine ⟨a, mid, _, _, ⟨hfirst, rfl⟩, ⟨hrest, rfl⟩, ?_⟩
  rw [events_bind, Pass.eventsAfter, hfirst]

theorem of_done {a b : α} (h : (done a).Runs o s r ledger b after events) :
    a = b ∧ ledger = after ∧ events = [] := by
  obtain ⟨run, rfl⟩ := h
  obtain ⟨hresult, rfl⟩ := Prod.mk.inj run
  exact ⟨Except.ok.inj hresult, rfl, rfl⟩

/-! Requests. -/

theorem of_value? {input : String} {level : Precedence} {code : Option String}
    (h : (value? input level).Runs o s r ledger code after events) :
    s.valueIn input level ledger = (.ok code, after) ∧ events = eventsIn r.values input ledger := by
  obtain ⟨run, rfl⟩ := h
  obtain ⟨found, mid, hstep, hdone⟩ := Pass.andThen_eq_ok.mp run
  obtain ⟨hresult, rfl⟩ := Prod.mk.inj hdone
  obtain rfl := Except.ok.inj hresult
  refine ⟨hstep, ?_⟩
  simp [value?, Script.events, Pass.eventsAfter, hstep]

theorem of_bodyOf {input code : String} (h : (bodyOf input).Runs o s r ledger code after events) :
    s.bodyIn o.indent input ledger = (.ok code, after) ∧
      events = eventsIn r.statements input ledger := by
  obtain ⟨run, rfl⟩ := h
  obtain ⟨found, mid, hstep, hdone⟩ := Pass.andThen_eq_ok.mp run
  obtain ⟨hresult, rfl⟩ := Prod.mk.inj hdone
  obtain rfl := Except.ok.inj hresult
  refine ⟨hstep, ?_⟩
  simp [bodyOf, Script.events, Pass.eventsAfter, hstep]

theorem of_name {category : NameCategory} {raw given : String}
    (h : (name category raw done).Runs o s r ledger given after events) :
    ledger.getName category raw = (given, after) ∧ events = [.name category raw given] := by
  obtain ⟨run, rfl⟩ := h
  obtain ⟨hresult, hafter⟩ := Prod.mk.inj run
  have hgiven : (ledger.getName category raw).1 = given := Except.ok.inj hresult
  refine ⟨Prod.ext hgiven hafter, ?_⟩
  rw [← hgiven]
  rfl

/-- The names of variables are all that is asked for. -/
theorem of_variableNames {raws names : List String}
    (h : (raws.mapM variableName).Runs o s r ledger names after events) :
    ∀ e ∈ events, ∃ raw given, e = .name .variableName raw given := by
  induction raws generalizing ledger names after events with
  | nil =>
      obtain ⟨-, -, rfl⟩ := h.of_done
      exact fun e he => absurd he List.not_mem_nil
  | cons raw rest ih =>
      rw [List.mapM_cons] at h
      obtain ⟨given, mid, first, later, ⟨-, rfl⟩, hlater, rfl⟩ := h.of_bind
      obtain ⟨others, last, second, none, hsecond, hnone, rfl⟩ := hlater.of_bind
      obtain ⟨-, -, rfl⟩ := hnone.of_done
      intro e he
      rw [List.append_nil] at he
      rcases List.mem_append.mp he with he | he
      · exact ⟨raw, _, List.mem_singleton.mp he⟩
      · exact ih hsecond e he

/-- Each name of a variable is asked for, in order. -/
theorem asked_variableNames {raws names : List String}
    (h : (raws.mapM variableName).Runs o s r ledger names after events) :
    raws.Forall₂ (fun raw given => .name .variableName raw given ∈ events) names := by
  induction raws generalizing ledger names after events with
  | nil =>
      obtain ⟨rfl, -, -⟩ := h.of_done
      exact .nil
  | cons raw rest ih =>
      rw [List.mapM_cons] at h
      obtain ⟨given, mid, first, later, hfirst, hlater, rfl⟩ := h.of_bind
      obtain ⟨others, last, second, none, hsecond, hnone, rfl⟩ := hlater.of_bind
      obtain ⟨rfl, -, rfl⟩ := hnone.of_done
      obtain ⟨-, rfl⟩ := hfirst.of_name
      refine .cons List.mem_cons_self ((ih hsecond).imp fun raw given asked => ?_)
      exact List.mem_append_right _ (List.mem_append_left _ asked)

end Runs

end Script

end BlockScript
