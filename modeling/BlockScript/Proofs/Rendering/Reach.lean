import Mathlib.Data.List.Forall2
import BlockScript.Proofs.Rendering.Ends

/-! # What scripts reach

A script looks up inputs of its block by name, and it complains about fields by name. Which names
it may use, whatever the answers to its requests are, is the reach of the script, and two blocks
that agree on the inputs within reach are rendered alike. -/

namespace BlockScript

/-- The field that an error is about, if it is about one. -/
def GenerateError.field? : GenerateError → Option String
  | unknownOption _ _ field _ => some field
  | unknownKind _ _ | invalidNumber _ _ | expectedValue _ _ | expectedStatement _ _ => none

/-- The names that a script may use: of the inputs where it looks for a value, of the inputs where
it looks for a chain, and of the fields that it complains about. -/
structure Reach where
  values : String → Prop
  bodies : String → Prop
  fields : String → Prop

namespace Reach

/-- Every name of one reach is in the other. -/
structure Le (r r' : Reach) : Prop where
  values : ∀ input, r.values input → r'.values input
  bodies : ∀ input, r.bodies input → r'.bodies input
  fields : ∀ field, r.fields field → r'.fields field

instance : LE Reach := ⟨Le⟩

end Reach

namespace Script
variable {α β : Type} {r r' : Reach}

/-- Whatever the answers are, a script stays within its reach, and its result is as wanted. -/
def Stays (r : Reach) (Q : α → Prop) : Script α → Prop
  | .done a => Q a
  | .fail error => ∀ field ∈ error.field?, r.fields field
  | .value input _ next => r.values input ∧ ∀ code, (next code).Stays r Q
  | .body input next => r.bodies input ∧ ∀ code, (next code).Stays r Q
  | .hasBody input next => r.bodies input ∧ ∀ answer, (next answer).Stays r Q
  | .remarks next => ∀ text, (next text).Stays r Q
  | .name _ _ next => ∀ given, (next given).Stays r Q
  | .temporary _ next => ∀ given, (next given).Stays r Q
  | .helper _ next => ∀ given, (next given).Stays r Q
  | .require _ next => next.Stays r Q
  | .define _ _ next => next.Stays r Q
  | .clearWidgets next => next.Stays r Q
  | .addWidget _ _ next => next.Stays r Q
  | .widgets next => ∀ made, (next made).Stays r Q

section Laws
variable {Q Q' : α → Prop}

theorem Stays.mono {s : Script α} (h : s.Stays r Q) (le : r ≤ r') (results : ∀ a, Q a → Q' a) :
    s.Stays r' Q' := by
  induction s with
  | done a => exact results a h
  | fail error => exact fun field hf => le.fields field (h field hf)
  | value input level next ih => exact ⟨le.values input h.1, fun code => ih code (h.2 code)⟩
  | body input next ih => exact ⟨le.bodies input h.1, fun code => ih code (h.2 code)⟩
  | hasBody input next ih => exact ⟨le.bodies input h.1, fun answer => ih answer (h.2 answer)⟩
  | remarks next ih => exact fun text => ih text (h text)
  | name category raw next ih => exact fun given => ih given (h given)
  | temporary base next ih => exact fun given => ih given (h given)
  | helper helper next ih => exact fun given => ih given (h given)
  | require m next ih => exact ih h
  | define key code next ih => exact ih h
  | clearWidgets next ih => exact ih h
  | addWidget widget code next ih => exact ih h
  | widgets next ih => exact fun made => ih made (h made)

/-- What is known of the results may be weakened. -/
theorem Stays.imp {s : Script α} (h : s.Stays r Q) (results : ∀ a, Q a → Q' a) : s.Stays r Q' :=
  h.mono ⟨fun _ h => h, fun _ h => h, fun _ h => h⟩ results

/-- Of two scripts in a row, both stay within reach, and the first ends with what the second
needs. -/
@[simp] theorem stays_bind {s : Script α} {f : α → Script β} {Q : β → Prop} :
    (s >>= f).Stays r Q ↔ s.Stays r fun a => (f a).Stays r Q := by
  change (s.bind f).Stays r Q ↔ _
  induction s with
  | done a => exact Iff.rfl
  | fail error => exact Iff.rfl
  | value input level next ih => exact and_congr_right fun _ => forall_congr' fun code => ih code
  | body input next ih => exact and_congr_right fun _ => forall_congr' fun code => ih code
  | hasBody input next ih =>
      exact and_congr_right fun _ => forall_congr' fun answer => ih answer
  | remarks next ih => exact forall_congr' fun text => ih text
  | name category raw next ih => exact forall_congr' fun given => ih given
  | temporary base next ih => exact forall_congr' fun given => ih given
  | helper helper next ih => exact forall_congr' fun given => ih given
  | require m next ih => exact ih
  | define key code next ih => exact ih
  | clearWidgets next ih => exact ih
  | addWidget widget code next ih => exact ih
  | widgets next ih => exact forall_congr' fun made => ih made

/-! Single requests. -/

@[simp] theorem stays_done {a : α} : (done a).Stays r Q ↔ Q a := Iff.rfl

@[simp] theorem stays_fail {error : GenerateError} :
    (fail error : Script α).Stays r Q ↔ ∀ field ∈ error.field?, r.fields field := Iff.rfl

@[simp] theorem stays_value? {input : String} {level : Precedence} {Q : Option String → Prop} :
    (value? input level).Stays r Q ↔ r.values input ∧ ∀ code, Q code := Iff.rfl

@[simp] theorem stays_valueOr {input : String} {level : Precedence} {default : String}
    {Q : String → Prop} :
    (valueOr input level default).Stays r Q ↔ r.values input ∧ ∀ code, Q code :=
  and_congr_right fun _ => ⟨fun h code => h (some code), fun h code => h (code.getD default)⟩

@[simp] theorem stays_bodyOf {input : String} {Q : String → Prop} :
    (bodyOf input).Stays r Q ↔ r.bodies input ∧ ∀ code, Q code := Iff.rfl

@[simp] theorem stays_isPlugged {input : String} {Q : Bool → Prop} :
    (isPlugged input).Stays r Q ↔ r.bodies input ∧ ∀ answer, Q answer := Iff.rfl

@[simp] theorem stays_ownRemarks {Q : String → Prop} :
    ownRemarks.Stays r Q ↔ ∀ text, Q text := Iff.rfl

@[simp] theorem stays_variableName {raw : String} {Q : String → Prop} :
    (variableName raw).Stays r Q ↔ ∀ given, Q given := Iff.rfl

@[simp] theorem stays_procedureName {raw : String} {Q : String → Prop} :
    (procedureName raw).Stays r Q ↔ ∀ given, Q given := Iff.rfl

@[simp] theorem stays_temporaryName {base : String} {Q : String → Prop} :
    (temporaryName base).Stays r Q ↔ ∀ given, Q given := Iff.rfl

@[simp] theorem stays_helperName {h : Helper} {Q : String → Prop} :
    (helperName h).Stays r Q ↔ ∀ given, Q given := Iff.rfl

@[simp] theorem stays_requireModule {m : Module} {Q : Unit → Prop} :
    (requireModule m).Stays r Q ↔ Q () := Iff.rfl

@[simp] theorem stays_defineAs {key code : String} {Q : Unit → Prop} :
    (defineAs key code).Stays r Q ↔ Q () := Iff.rfl

@[simp] theorem stays_forgetWidgets {Q : Unit → Prop} : forgetWidgets.Stays r Q ↔ Q () := Iff.rfl

@[simp] theorem stays_addConstructor {widget code : String} {Q : Unit → Prop} :
    (addConstructor widget code).Stays r Q ↔ Q () := Iff.rfl

@[simp] theorem stays_constructors {Q : List String → Prop} :
    constructors.Stays r Q ↔ ∀ made, Q made := Iff.rfl

@[simp] theorem stays_postfixValue {code : String} {Q : Emitted → Prop} :
    (postfixValue code).Stays r Q ↔ Q (.value code .unaryPostfix) := Iff.rfl

/-- Scripts for the members of a list, where each of them stays within reach and ends as it
should. -/
theorem Stays.mapM {γ : Type} {f : γ → Script β} {xs : List γ} {P : γ → β → Prop}
    {Q : List β → Prop} (h : ∀ x ∈ xs, (f x).Stays r (P x))
    (all : ∀ ys, List.Forall₂ P xs ys → Q ys) : (xs.mapM f).Stays r Q := by
  induction xs generalizing Q with
  | nil => exact all [] .nil
  | cons x rest ih =>
      rw [List.mapM_cons]
      simp only [stays_bind]
      refine (h x List.mem_cons_self).imp fun y hy => ?_
      exact ih (fun x' hx' => h x' (List.mem_cons_of_mem _ hx')) fun ys hys => all _ (.cons hy hys)

theorem stays_numberedValues {base : String} {level : Precedence} {default : String} {count : Nat}
    {Q : List String → Prop} (within : ∀ i : Nat, r.values (base ++ toString i))
    (all : ∀ codes, Q codes) : (numberedValues base level default count).Stays r Q :=
  .mapM (P := fun _ _ => True) (fun i _ => stays_valueOr.mpr ⟨within i, fun _ => trivial⟩)
    fun codes _ => all codes

end Laws

/-- A script that stays within reach complains about no field out of reach. -/
theorem Stays.ends {s : Script α} {Q : α → Prop} (h : s.Stays r Q) :
    s.Ends (fun error => ∀ field ∈ error.field?, r.fields field) Q := by
  -- Each request is a script of its own in front of what follows, so the laws of ends apply to it.
  induction s with
  | done a => exact ends_done.mpr h
  | fail error => exact ends_fail.mpr h
  | value input level next ih =>
      exact (ends_bind (s := value? input level)).mpr (ends_value?.mpr fun c => ih c (h.2 c))
  | body input next ih =>
      exact (ends_bind (s := bodyOf input)).mpr (ends_bodyOf.mpr fun c => ih c (h.2 c))
  | hasBody input next ih =>
      exact (ends_bind (s := isPlugged input)).mpr (ends_isPlugged.mpr fun b => ih b (h.2 b))
  | remarks next ih =>
      exact (ends_bind (s := ownRemarks)).mpr (ends_ownRemarks.mpr fun text => ih text (h text))
  | name category raw next ih =>
      exact (ends_bind (s := Script.name category raw done)).mpr (ends_name.mpr fun n => ih n (h n))
  | temporary base next ih =>
      exact (ends_bind (s := temporaryName base)).mpr (ends_temporaryName.mpr fun n => ih n (h n))
  | helper helper next ih =>
      exact (ends_bind (s := helperName helper)).mpr (ends_helperName.mpr fun n => ih n (h n))
  | require m next ih =>
      exact (ends_bind (s := requireModule m) (f := fun _ => next)).mpr
        (ends_requireModule.mpr (ih h))
  | define key code next ih =>
      exact (ends_bind (s := defineAs key code) (f := fun _ => next)).mpr
        (ends_defineAs.mpr (ih h))
  | clearWidgets next ih =>
      exact (ends_bind (s := forgetWidgets) (f := fun _ => next)).mpr
        (ends_forgetWidgets.mpr (ih h))
  | addWidget widget code next ih =>
      exact (ends_bind (s := addConstructor widget code) (f := fun _ => next)).mpr
        (ends_addConstructor.mpr (ih h))
  | widgets next ih =>
      exact (ends_bind (s := constructors)).mpr (ends_constructors.mpr fun made => ih made (h made))

variable {o : Options} {s s' : Surroundings}

/-- A run without an error ends with a result as wanted. -/
theorem Stays.result {script : Script α} {Q : α → Prop} (h : script.Stays r Q)
    {ledger after : Ledger} {a : α} (run : script.run o s ledger = (.ok a, after)) : Q a := by
  have ends : (script.run o s).Ends (fun _ => True) Q :=
    Ends.run (fun _ _ => .trivial _) (fun _ => .trivial _)
      (h.ends.mono (fun _ _ => trivial) fun _ h => h)
  have result := ends ledger
  rwa [run] at result

/-- The run of a script does not depend on what is plugged into inputs out of reach. -/
theorem Stays.run_congr {script : Script α} {Q : α → Prop} (h : script.Stays r Q)
    (remarks : s.remarks = s'.remarks)
    (values : ∀ input, r.values input → s.values.get? input = s'.values.get? input)
    (statements : ∀ input, r.bodies input → s.statements.get? input = s'.statements.get? input) :
    script.run o s = script.run o s' := by
  induction script with
  | done a => rfl
  | fail error => rfl
  | value input level next ih =>
      have rest := funext fun code => ih code (h.2 code)
      simp only [run, Surroundings.valueIn, values input h.1, rest]
  | body input next ih =>
      have rest := funext fun code => ih code (h.2 code)
      simp only [run, Surroundings.bodyIn, statements input h.1, rest]
  | hasBody input next ih =>
      simp only [run, statements input h.1, ih _ (h.2 _)]
  | remarks next ih => simp only [run, remarks, ih _ (h _)]
  | name category raw next ih => exact funext fun _ => congrFun (ih _ (h _)) _
  | temporary base next ih => exact funext fun _ => congrFun (ih _ (h _)) _
  | helper helper next ih => exact funext fun _ => congrFun (ih _ (h _)) _
  | require m next ih => exact funext fun _ => congrFun (ih h) _
  | define key code next ih => exact funext fun _ => congrFun (ih h) _
  | clearWidgets next ih => exact funext fun _ => congrFun (ih h) _
  | addWidget widget code next ih => exact funext fun _ => congrFun (ih h) _
  | widgets next ih => exact funext fun _ => congrFun (ih _ (h _)) _

end Script

-- The laws above are all that is needed of it.
attribute [irreducible] Script.Stays

end BlockScript
