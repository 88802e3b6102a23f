import Mathlib.Logic.Relation
import BlockScript.Proofs.Rendering.Runs
import BlockScript.Proofs.Template.Bodies

/-! # Code that is passed on

The script of an expression asks for the code in inputs of its block, and all that it is given stands
in the code that it ends with. So a piece of code that a block leaves somewhere below stands in the
code at the top, unless an expression between them keeps it. -/

namespace BlockScript

/-- A piece of code stands in a text: as it is, on lines that are indented, or with its quote marks
dropped. -/
inductive Carries (piece : String) : String → Prop
  | self : Carries piece piece
  | append_left {text : String} (h : Carries piece text) (more : String) :
      Carries piece (text ++ more)
  | append_right {text : String} (h : Carries piece text) (front : String) :
      Carries piece (front ++ text)
  | indented {text : String} (h : Carries piece text) (indent : String) :
      Carries piece (Text.prefixLines text indent)
  | unquoted {text : String} (h : Carries piece text) :
      Carries piece (String.ofList (text.toList.filter fun c => !Template.isQuoteMark c))

theorem Text.mem_markTail {mark : List Char} {c : Char} {cs : List Char} (h : c ∈ cs) :
    c ∈ markTail mark cs := by
  induction cs with
  | nil => exact h
  | cons d rest ih =>
      rw [markTail]
      split <;> rcases List.mem_cons.mp h with rfl | h
      · exact List.mem_cons_self
      · exact List.mem_cons_of_mem _ (List.mem_append_right _ (ih h))
      · exact List.mem_cons_self
      · exact List.mem_cons_of_mem _ (ih h)

theorem Text.mem_prefixLines {text : String} {c : Char} (h : c ∈ text.toList) (mark : String) :
    c ∈ (prefixLines text mark).toList := by
  unfold prefixLines
  split
  · next empty => exact absurd (empty ▸ h) List.not_mem_nil
  · rw [String.toList_ofList]
    exact List.mem_append_right _ (mem_markTail h)

namespace Carries
variable {piece code text : String}

theorem trans (h : Carries piece code) (h' : Carries code text) : Carries piece text := by
  induction h' with
  | self => exact h
  | append_left _ more ih => exact ih.append_left more
  | append_right _ front ih => exact ih.append_right front
  | indented _ indent ih => exact ih.indented indent
  | unquoted _ ih => exact ih.unquoted

/-- A slash is never dropped. -/
theorem slash (h : Carries piece text) (slash : '/' ∈ piece.toList) : '/' ∈ text.toList := by
  induction h with
  | self => exact slash
  | append_left _ more ih => exact String.toList_append ▸ List.mem_append_left _ ih
  | append_right _ front ih => exact String.toList_append ▸ List.mem_append_right _ ih
  | indented _ indent ih => exact Text.mem_prefixLines ih indent
  | unquoted _ ih =>
      rw [String.toList_ofList]
      exact List.mem_filter.mpr ⟨ih, by decide⟩

theorem wrap (h : Carries piece text) (inner required : Precedence) :
    Carries piece (Precedence.wrap text inner required) := by
  unfold Precedence.wrap
  split
  · exact (h.append_right "(").append_left ")"
  · exact h

theorem intercalate {texts : List String} (h : Carries piece text) (mem : text ∈ texts)
    (separator : String) : Carries piece (separator.intercalate texts) := by
  obtain ⟨before, after, joined⟩ := Text.exists_intercalate_eq separator mem
  rw [joined]
  exact (h.append_right before).append_left after

end Carries

/-- All code with a slash in it, of some that was given, stands in a text. -/
def PassedOn (given : List String) (text : String) : Prop :=
  ∀ code ∈ given, '/' ∈ code.toList → Carries code text

namespace PassedOn
variable {given more : List String} {text : String}

@[grind ←] theorem nil (text : String) : PassedOn [] text := fun _ h => absurd h List.not_mem_nil

theorem single (text : String) : PassedOn [text] text := by
  intro code mem _
  exact List.mem_singleton.mp mem ▸ .self

@[grind ←] theorem append (h : PassedOn given text) (h' : PassedOn more text) :
    PassedOn (given ++ more) text := by
  intro code mem slash
  rcases List.mem_append.mp mem with mem | mem
  · exact h code mem slash
  · exact h' code mem slash

theorem trans {code : String} (h : PassedOn given code) (h' : Carries code text) :
    PassedOn given text :=
  fun _ mem slash => (h _ mem slash).trans h'

@[grind ←] theorem left (h : PassedOn given text) (after : String) :
    PassedOn given (text ++ after) :=
  h.trans (.append_left .self after)

@[grind ←] theorem right (h : PassedOn given text) (before : String) :
    PassedOn given (before ++ text) :=
  h.trans (.append_right .self before)

/-- Two steps at once, so that a search finds code in a longer text. -/
@[grind ←] theorem left_left (h : PassedOn given text) (after more : String) :
    PassedOn given (text ++ after ++ more) :=
  (h.left after).left more

end PassedOn

/-- Does a value hold all the code with a slash in it that was given? -/
def Emitted.PassesOn : Emitted → List String → Prop
  | .value text _, given => PassedOn given text
  | .statement _, _ | .nothing, _ => True

/-- A request for the code in a value input, and the ledger at that moment. -/
structure Inquiry where
  input : String
  level : Precedence
  ledger : Ledger

/-- The answer to an inquiry. -/
def Inquiry.answer (q : Inquiry) (s : Surroundings) : Except GenerateError (Option String) × Ledger :=
  s.valueIn q.input q.level q.ledger

/-- Among the events from some ledger on are those of the block that an inquiry is about, and the
ones before them lead to the ledger of the inquiry. -/
def Inquiry.Occurs (q : Inquiry) (indent : String) (r : Records) (ledger : Ledger)
    (events : List Event) : Prop :=
  ∃ front back, events = front ++ (eventsIn r.values q.input q.ledger ++ back) ∧
    Ledger.Steps indent ledger front q.ledger

section Occurs
variable {q : Inquiry} {indent : String} {r : Records} {ledger mid : Ledger} {events : List Event}

theorem Inquiry.Occurs.after (h : q.Occurs indent r mid events) {first : List Event}
    (steps : Ledger.Steps indent ledger first mid) : q.Occurs indent r ledger (first ++ events) := by
  obtain ⟨front, back, rfl, steps'⟩ := h
  exact ⟨first ++ front, back, by rw [List.append_assoc], steps.append steps'⟩

theorem Inquiry.Occurs.after_step (h : q.Occurs indent r mid events) {e : Event}
    (step : Ledger.Step indent ledger e mid) : q.Occurs indent r ledger (e :: events) :=
  h.after (.cons step (.refl mid))

end Occurs

/-- Is an event about the constructors of widgets? -/
def Event.isAboutWidgets : Event → Bool
  | .clearWidgets | .addWidget _ _ => true
  | _ => false

namespace Script
variable {α β : Type}

/-- The inquiries of a run, in order. -/
def inquiries (o : Options) (s : Surroundings) : Script α → Ledger → List Inquiry
  | .done _, _ => []
  | .fail _, _ => []
  | .value input level next, ledger =>
      ⟨input, level, ledger⟩ ::
        match s.valueIn input level ledger with
        | (.ok code, mid) => (next code).inquiries o s mid
        | (.error _, _) => []
  | .body input next, ledger =>
      match s.bodyIn o.indent input ledger with
      | (.ok code, mid) => (next code).inquiries o s mid
      | (.error _, _) => []
  | .hasBody input next, ledger => (next (s.statements.get? input).isSome).inquiries o s ledger
  | .remarks next, ledger => (next s.remarks).inquiries o s ledger
  | .name category raw next, ledger =>
      let given := ledger.getName category raw
      (next given.1).inquiries o s given.2
  | .temporary base next, ledger =>
      let given := ledger.distinctName base
      (next given.1).inquiries o s given.2
  | .helper h next, ledger =>
      let given := ledger.provide h o.indent
      (next given.1).inquiries o s given.2
  | .require m next, ledger => next.inquiries o s (ledger.addImport m)
  | .define key code next, ledger => next.inquiries o s (ledger.setDefinition key code)
  | .clearWidgets next, ledger => next.inquiries o s ledger.clearWidgets
  | .addWidget widget code next, ledger => next.inquiries o s (ledger.putWidget widget code)
  | .widgets next, ledger => (next ledger.widgets.values).inquiries o s ledger

/-- Whatever the answers are, where some inputs are known to have code, a script asks for values
only, leaves the widgets alone, and its result is as wanted for the code that it was given. -/
def PassesOn (supplied : String → Prop) : Script α → (α → List String → Prop) → Prop
  | .done a, Q => Q a []
  | .fail _, _ => True
  | .value input _ next, Q => ∀ code : Option String, (supplied input → code ≠ none) →
      (next code).PassesOn supplied fun a given => Q a (code.toList ++ given)
  | .remarks next, Q => ∀ text, (next text).PassesOn supplied Q
  | .name _ _ next, Q => ∀ given, (next given).PassesOn supplied Q
  | .temporary _ next, Q => ∀ given, (next given).PassesOn supplied Q
  | .helper _ next, Q => ∀ given, (next given).PassesOn supplied Q
  | .require _ next, Q => next.PassesOn supplied Q
  | .body _ _, _ | .hasBody _ _, _ | .define _ _ _, _ | .clearWidgets _, _ | .addWidget _ _ _, _
  | .widgets _, _ => False

section Laws
variable {supplied : String → Prop} {Q Q' : α → List String → Prop}

theorem PassesOn.mono {s : Script α} (h : s.PassesOn supplied Q)
    (weaker : ∀ a given, Q a given → Q' a given) : s.PassesOn supplied Q' := by
  induction s generalizing Q Q' with
  | done a => exact weaker a [] h
  | fail error => exact h
  | value input level next ih =>
      exact fun code known => ih code (h code known) fun a given => weaker a _
  | remarks next ih => exact fun text => ih text (h text) weaker
  | name category raw next ih => exact fun given => ih given (h given) weaker
  | temporary base next ih => exact fun given => ih given (h given) weaker
  | helper helper next ih => exact fun given => ih given (h given) weaker
  | require m next ih => exact ih h weaker
  | body | hasBody | define | clearWidgets | addWidget | widgets => exact h.elim

/-- Of two scripts in a row, the first has to bring about what the second needs. -/
theorem PassesOn.bind {s : Script α} {f : α → Script β} {Q : β → List String → Prop}
    (h : s.PassesOn supplied fun a given =>
      (f a).PassesOn supplied fun b more => Q b (given ++ more)) :
    (s >>= f).PassesOn supplied Q := by
  change (s.bind f).PassesOn supplied Q
  induction s generalizing Q with
  | done a => exact h
  | fail error => exact h
  | value input level next ih =>
      intro code known
      apply ih
      simpa only [List.append_assoc] using h code known
  | remarks next ih => exact fun text => ih text (h text)
  | name category raw next ih => exact fun given => ih given (h given)
  | temporary base next ih => exact fun given => ih given (h given)
  | helper helper next ih => exact fun given => ih given (h given)
  | require m next ih => exact ih h
  | body | hasBody | define | clearWidgets | addWidget | widgets => exact h.elim

section Requests
variable {Q : β → List String → Prop}

theorem PassesOn.require {m : Module} {f : Unit → Script β} (h : (f ()).PassesOn supplied Q) :
    (requireModule m >>= f).PassesOn supplied Q := h

theorem PassesOn.variableName {raw : String} {f : String → Script β}
    (h : ∀ name, (f name).PassesOn supplied Q) : (variableName raw >>= f).PassesOn supplied Q := h

theorem PassesOn.procedureName {raw : String} {f : String → Script β}
    (h : ∀ name, (f name).PassesOn supplied Q) : (procedureName raw >>= f).PassesOn supplied Q := h

theorem PassesOn.temporaryName {base : String} {f : String → Script β}
    (h : ∀ name, (f name).PassesOn supplied Q) : (temporaryName base >>= f).PassesOn supplied Q := h

theorem PassesOn.helperName {helper : Helper} {f : String → Script β}
    (h : ∀ name, (f name).PassesOn supplied Q) : (helperName helper >>= f).PassesOn supplied Q := h

theorem PassesOn.value? {input : String} {level : Precedence} {f : Option String → Script β}
    (h : ∀ code : Option String, (supplied input → code ≠ none) →
      (f code).PassesOn supplied fun b more => Q b (code.toList ++ more)) :
    (value? input level >>= f).PassesOn supplied Q := h

/-- The code in a value input is given, unless the default stands for it. -/
theorem PassesOn.valueOr {input : String} {level : Precedence} {default : String}
    {f : String → Script β}
    (h : ∀ text given, PassedOn given text →
      (f text).PassesOn supplied fun b more => Q b (given ++ more)) :
    (valueOr input level default >>= f).PassesOn supplied Q := by
  intro code _
  cases code with
  | none => exact h default [] (.nil default)
  | some text => exact h text [text] (.single text)

end Requests

/-- The first of two scripts may ask for no code. -/
theorem PassesOn.quiet {s : Script α} {f : α → Script β} {P : α → Prop}
    {Q : β → List String → Prop} (h : s.PassesOn supplied fun a given => given = [] ∧ P a)
    (h' : ∀ a, P a → (f a).PassesOn supplied Q) : (s >>= f).PassesOn supplied Q := by
  refine PassesOn.bind (h.mono fun a given known => ?_)
  obtain ⟨rfl, known⟩ := known
  exact h' a known

/-- Scripts for the members of a list, of which each passes on what it is given. -/
theorem PassesOn.mapM {γ : Type} {f : γ → Script String} {xs : List γ}
    (h : ∀ x ∈ xs, (f x).PassesOn supplied fun text given => PassedOn given text) :
    (xs.mapM f).PassesOn supplied fun texts given =>
      ∀ code ∈ given, '/' ∈ code.toList → ∃ text ∈ texts, Carries code text := by
  induction xs with
  | nil => exact fun _ mem => absurd mem List.not_mem_nil
  | cons x rest ih =>
      rw [List.mapM_cons]
      refine PassesOn.bind ((h x List.mem_cons_self).mono fun text given first => ?_)
      refine PassesOn.bind ((ih fun y hy => h y (List.mem_cons_of_mem _ hy)).mono ?_)
      intro texts more later code mem slash
      rcases List.mem_append.mp mem with mem | mem
      · exact ⟨text, List.mem_cons_self, first code mem slash⟩
      · rw [List.append_nil] at mem
        obtain ⟨text', member, carried⟩ := later code mem slash
        exact ⟨text', List.mem_cons_of_mem _ member, carried⟩

end Laws

section Runs
variable {o : Options} {s : Surroundings} {r : Records} {ledger after : Ledger} {q : Inquiry}

/-- Two scripts in a row inquire one after the other. -/
theorem inquiries_bind {script : Script α} {f : α → Script β} {a : α} {mid : Ledger}
    (run : script.run o s ledger = (.ok a, mid)) :
    (script >>= f).inquiries o s ledger =
      script.inquiries o s ledger ++ (f a).inquiries o s mid := by
  change (script.bind f).inquiries o s ledger = _
  induction script generalizing ledger with
  | done b =>
      obtain ⟨rfl, rfl⟩ := Pass.pure_eq_ok.mp run
      rfl
  | fail error => simp [Script.run, Pass.fail] at run
  | value input level next ih =>
      obtain ⟨code, between, asked, rest⟩ := Pass.andThen_eq_ok.mp run
      simp only [Script.bind, inquiries, asked, ih code rest, List.cons_append]
  | body input next ih =>
      obtain ⟨code, between, asked, rest⟩ := Pass.andThen_eq_ok.mp run
      simp only [Script.bind, inquiries, asked, ih code rest]
  | hasBody input next ih => exact ih _ run
  | remarks next ih => exact ih _ run
  | name category raw next ih => exact ih _ run
  | temporary base next ih => exact ih _ run
  | helper helper next ih => exact ih _ run
  | require m next ih => exact ih run
  | define key code next ih => exact ih run
  | clearWidgets next ih => exact ih run
  | addWidget widget code next ih => exact ih run
  | widgets next ih => exact ih _ run

/-- The events of the block in an input are among those of a run. -/
theorem occurs_of_mem_inquiries (tell : r.Tell o s) {script : Script α}
    (h : q ∈ script.inquiries o s ledger) :
    q.Occurs o.indent r ledger (script.events o s r ledger) := by
  induction script generalizing ledger with
  | done a => exact absurd h List.not_mem_nil
  | fail error => exact absurd h List.not_mem_nil
  | value input level next ih =>
      have steps := tell.values input level ledger
      simp only [inquiries, List.mem_cons] at h
      rcases h with rfl | h
      · exact ⟨[], _, rfl, .refl ledger⟩
      · rcases asked : s.valueIn input level ledger with ⟨error | code, mid⟩
        · simp [asked] at h
        · simp only [asked] at h steps
          simp only [events, Pass.eventsAfter, asked]
          exact (ih code h).after steps
  | body input next ih =>
      have steps := tell.statements input ledger
      rcases asked : s.bodyIn o.indent input ledger with ⟨error | code, mid⟩
      · simp [inquiries, asked] at h
      · simp only [inquiries, asked] at h steps
        simp only [events, Pass.eventsAfter, asked]
        exact (ih code h).after steps
  | hasBody input next ih => exact ih _ h
  | remarks next ih => exact ih _ h
  | name category raw next ih => exact (ih _ h).after_step (.name ledger category raw)
  | temporary base next ih => exact (ih _ h).after_step (.temporary ledger base)
  | helper helper next ih => exact (ih _ h).after_step (.helper ledger helper)
  | require m next ih => exact (ih h).after_step (.require ledger m)
  | define key code next ih => exact (ih h).after_step (.define ledger key code)
  | clearWidgets next ih => exact (ih h).after_step (.clearWidgets ledger)
  | addWidget widget code next ih => exact (ih h).after_step (.addWidget ledger widget code)
  | widgets next ih => exact ih _ h

section PassesOn
variable {supplied : String → Prop} {Q : α → List String → Prop} {script : Script α}
  (supply : ∀ q ∈ script.inquiries o s ledger, supplied q.input →
    ∀ code mid, q.answer s = (.ok code, mid) → code ≠ none)
include supply

/-- A run without an error has answers to all of its inquiries, and the code in them was given. -/
theorem PassesOn.run (h : script.PassesOn supplied Q) {a : α}
    (run : script.run o s ledger = (.ok a, after)) :
    ∃ given, Q a given ∧ ∀ q ∈ script.inquiries o s ledger,
      ∃ code mid, q.answer s = (.ok code, mid) ∧ ∀ text ∈ code, text ∈ given := by
  induction script generalizing ledger Q with
  | done b =>
      obtain ⟨rfl, -⟩ := Pass.pure_eq_ok.mp run
      exact ⟨[], h, fun _ mem => absurd mem List.not_mem_nil⟩
  | fail error => simp [Script.run, Pass.fail] at run
  | value input level next ih =>
      obtain ⟨code, mid, asked, rest⟩ := Pass.andThen_eq_ok.mp run
      simp only [inquiries, asked, List.forall_mem_cons] at supply
      have known : supplied input → code ≠ none := fun hs => supply.1 hs code mid asked
      obtain ⟨given, holds, answers⟩ := ih code supply.2 (h code known) rest
      refine ⟨_, holds, ?_⟩
      simp only [inquiries, asked, List.forall_mem_cons]
      refine ⟨⟨code, mid, asked, fun text mem => ?_⟩, fun q mem => ?_⟩
      · exact List.mem_append_left _ (Option.mem_toList.mpr mem)
      · obtain ⟨reply, between, answer, all⟩ := answers q mem
        exact ⟨reply, between, answer, fun text ht => List.mem_append_right _ (all text ht)⟩
  | remarks next ih => exact ih _ supply (h _) run
  | name category raw next ih => exact ih _ supply (h _) run
  | temporary base next ih => exact ih _ supply (h _) run
  | helper helper next ih => exact ih _ supply (h _) run
  | require m next ih => exact ih supply h run
  | body | hasBody | define | clearWidgets | addWidget | widgets => exact h.elim

/-- What happens to widgets in a run happens in inputs. -/
theorem PassesOn.exists_inquiry (h : script.PassesOn supplied Q) {e : Event}
    (mem : e ∈ script.events o s r ledger) (about : e.isAboutWidgets = true) :
    ∃ q ∈ script.inquiries o s ledger, e ∈ eventsIn r.values q.input q.ledger := by
  induction script generalizing ledger Q with
  | done | fail => exact absurd mem List.not_mem_nil
  | value input level next ih =>
      simp only [inquiries, List.mem_cons, exists_eq_or_imp]
      rcases List.mem_append.mp mem with mem | mem
      · exact .inl mem
      · rcases asked : s.valueIn input level ledger with ⟨error | code, mid⟩
        · simp [Pass.eventsAfter, asked] at mem
        · simp only [Pass.eventsAfter, asked] at mem
          simp only [inquiries, asked, List.forall_mem_cons] at supply
          have known : supplied input → code ≠ none := fun hs => supply.1 hs code mid asked
          exact .inr (ih code supply.2 (h code known) mem)
  | remarks next ih => exact ih _ supply (h _) mem
  | name category raw next ih =>
      rcases List.mem_cons.mp mem with rfl | mem
      · exact Bool.noConfusion about
      · exact ih _ supply (h _) mem
  | temporary base next ih =>
      rcases List.mem_cons.mp mem with rfl | mem
      · exact Bool.noConfusion about
      · exact ih _ supply (h _) mem
  | helper helper next ih =>
      rcases List.mem_cons.mp mem with rfl | mem
      · exact Bool.noConfusion about
      · exact ih _ supply (h _) mem
  | require m next ih =>
      rcases List.mem_cons.mp mem with rfl | mem
      · exact Bool.noConfusion about
      · exact ih supply h mem
  | body | hasBody | define | clearWidgets | addWidget | widgets => exact h.elim

end PassesOn

end Runs

end Script

end BlockScript
