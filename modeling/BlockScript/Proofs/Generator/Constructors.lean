import BlockScript.Proofs.Generator.Widgets
import BlockScript.Proofs.Rendering.Contract

/-! # What is collected

While blocks are rendered, the constructors of labels and buttons are collected. No block of another
kind adds to the collection, so all that it ever holds is constructors. -/

namespace BlockScript

open Template

/-- The contract of the collection: what is added to it is the constructor of a widget. -/
def collecting (o : Options) : Contract where
  value _ _ := True
  body _ := True
  remarks _ := True
  relies _ := True
  owes
    | .addWidget _ code => ∃ kind n, Kind.constructor? o n kind = some code
    | _ => True
  error _ := True

/-- Whatever the answers are, all that a script adds to the collection is constructors. -/
abbrev Script.AddsConstructors {α : Type} (o : Options) (script : Script α) : Prop :=
  script.Honours (collecting o) fun _ => True

namespace Script
variable {α β : Type} {o : Options}

namespace AddsConstructors

theorem bind {script : Script β} {f : β → Script α} (first : script.AddsConstructors o)
    (rest : ∀ b, (f b).AddsConstructors o) : (script >>= f).AddsConstructors o :=
  .andThen first fun b _ => rest b

theorem mapM {γ : Type} {f : γ → Script β} {xs : List γ} (h : ∀ x, (f x).AddsConstructors o) :
    (xs.mapM f).AddsConstructors o :=
  (Honours.mapM_all (P := fun _ => True) fun x _ => h x).mono fun _ _ => trivial

/-- A script that leaves the widgets alone adds nothing. -/
theorem of_passesOn {script : Script α} {Q : α → List String → Prop}
    (h : script.PassesOn (fun _ => False) Q) : script.AddsConstructors o := by
  induction script generalizing Q with
  | done a => exact trivial
  | fail error => exact trivial
  | value input level next ih => exact fun code _ => ih code (h code False.elim)
  | remarks next ih => exact fun text _ => ih text (h text)
  | name category raw next ih => exact fun given _ => ⟨trivial, fun _ => ih given (h given)⟩
  | temporary base next ih => exact fun given _ => ⟨trivial, fun _ => ih given (h given)⟩
  | helper helper next ih => exact fun given _ => ⟨trivial, fun _ => ih given (h given)⟩
  | require m next ih => exact ⟨trivial, fun _ => ih h⟩
  | body | hasBody | define | clearWidgets | addWidget | widgets => exact h.elim

end AddsConstructors

theorem AddsConstructors.value? {input : String} {level : Precedence} :
    (value? input level).AddsConstructors o := fun _ _ => trivial

theorem AddsConstructors.valueOr {input : String} {level : Precedence} {default : String} :
    (valueOr input level default).AddsConstructors o := fun _ _ => trivial

theorem AddsConstructors.numberedValues {base : String} {level : Precedence} {default : String}
    {count : Nat} : (numberedValues base level default count).AddsConstructors o :=
  .mapM fun _ => .valueOr

theorem AddsConstructors.bodyOf {input : String} : (bodyOf input).AddsConstructors o :=
  fun _ _ => trivial

theorem AddsConstructors.isPlugged {input : String} : (isPlugged input).AddsConstructors o :=
  fun _ => trivial

theorem AddsConstructors.ownRemarks : ownRemarks.AddsConstructors o := fun _ _ => trivial

theorem AddsConstructors.requireModule {m : Module} : (requireModule m).AddsConstructors o :=
  ⟨trivial, fun _ => trivial⟩

theorem AddsConstructors.defineAs {key code : String} : (defineAs key code).AddsConstructors o :=
  ⟨trivial, fun _ => trivial⟩

theorem AddsConstructors.forgetWidgets : forgetWidgets.AddsConstructors o :=
  ⟨trivial, fun _ => trivial⟩

theorem AddsConstructors.constructors : constructors.AddsConstructors o := fun _ _ => trivial

theorem AddsConstructors.variableName {raw : String} : (variableName raw).AddsConstructors o :=
  fun _ _ => ⟨trivial, fun _ => trivial⟩

theorem AddsConstructors.procedureName {raw : String} : (procedureName raw).AddsConstructors o :=
  fun _ _ => ⟨trivial, fun _ => trivial⟩

theorem AddsConstructors.temporaryName {base : String} : (temporaryName base).AddsConstructors o :=
  fun _ _ => ⟨trivial, fun _ => trivial⟩

end Script

namespace Template

open Script

variable {o : Options} {n : Node}

/-! ### Expressions -/

theorem addsConstructors_test (property : Property) : property.test.AddsConstructors o := by
  by_cases divisible : property = .divisible
  · subst divisible
    refine .bind .value? fun number => ?_
    cases number with
    | none => exact trivial
    | some number =>
        refine .bind .value? fun divisor => ?_
        cases divisor <;> exact trivial
  · exact .of_passesOn (passesOn_test fun same => absurd same divisible)

theorem addsConstructors_mathNumberProperty : (mathNumberProperty n).AddsConstructors o := by
  refine .bind (.of_passesOn (passesOn_requiredField n _)) fun name => ?_
  split
  · exact trivial
  · exact addsConstructors_test _

/-! ### Statements -/

theorem addsConstructors_controlsIf (endsWithElse : Bool) :
    (controlsIf endsWithElse o n).AddsConstructors o := by
  have branch (lead : String) (i : Nat) : (conditional lead i).AddsConstructors o :=
    .bind .valueOr fun _ => .bind .bodyOf fun _ => trivial
  refine .bind (.mapM (branch _)) fun branches => ?_
  refine .bind .isPlugged fun hasElse => ?_
  dsimp only
  split
  · exact .bind (.bind .bodyOf fun _ => trivial) fun _ => trivial
  · exact trivial

theorem addsConstructors_wait : (wait n).AddsConstructors o := by
  unfold wait
  dsimp only
  split <;> exact trivial

theorem addsConstructors_pinOf : (pinOf n).AddsConstructors o := by
  unfold pinOf
  split
  · exact trivial
  · split <;> exact trivial

theorem addsConstructors_pinLevel : (pinLevel n).AddsConstructors o := by
  unfold pinLevel
  split <;> exact trivial

theorem addsConstructors_returnLine : (returnLine o n).AddsConstructors o := by
  unfold returnLine
  split
  · exact .bind .valueOr fun _ => trivial
  · exact trivial

theorem addsConstructors_bindUnlessBare (list : String) :
    (bindUnlessBare list).AddsConstructors o := by
  unfold bindUnlessBare
  split
  · exact trivial
  · exact .bind .temporaryName fun _ => trivial

theorem addsConstructors_writeElement (mode : WriteMode) (list value : String)
    (position : Position) : (writeElement o mode list value position).AddsConstructors o := by
  have index {delta : Int} {required : Precedence} :
      (adjustedIndex o "AT" delta required).AddsConstructors o :=
    .of_passesOn (passesOn_index _ _ _)
  cases position with
  | first => exact trivial
  | last =>
      cases mode with
      | replace => exact .bind (addsConstructors_bindUnlessBare list) fun _ => trivial
      | shift => exact trivial
  | fromStart => exact .bind index fun _ => trivial
  | fromEnd =>
      exact .bind index fun _ => .bind (addsConstructors_bindUnlessBare list) fun _ => trivial
  | random =>
      refine .bind .requireModule fun _ => ?_
      exact .bind (addsConstructors_bindUnlessBare list) fun _ =>
        .bind .temporaryName fun _ => trivial

theorem addsConstructors_listsSetIndex : (listsSetIndex o n).AddsConstructors o := by
  have mode : (writeMode n).AddsConstructors o := by
    unfold writeMode
    split <;> exact trivial
  refine .bind mode fun mode => ?_
  refine .bind (.of_passesOn (passesOn_positionOr n _ _)) fun position => ?_
  refine .bind .valueOr fun list => .bind .valueOr fun value => ?_
  exact .bind (addsConstructors_writeElement mode list value position) fun _ => trivial

/-! ### Routines -/

theorem addsConstructors_procedureCall : (procedureCall n).AddsConstructors o :=
  .bind .procedureName fun _ => .bind .numberedValues fun _ => trivial

theorem addsConstructors_widgetCall : (widgetCall n).AddsConstructors o :=
  .bind .procedureName fun _ => .bind .numberedValues fun _ => trivial

theorem addsConstructors_defineRoutine (name code : String) :
    (defineRoutine name code).AddsConstructors o :=
  .bind .ownRemarks fun _ => .bind .defineAs fun _ => trivial

theorem addsConstructors_proceduresDefine : (proceduresDefine o n).AddsConstructors o := by
  refine .bind .procedureName fun routine => .bind .bodyOf fun body => ?_
  refine .bind .value? fun result => ?_
  refine .bind (.mapM fun _ => .variableName) fun arguments => ?_
  split <;> exact addsConstructors_defineRoutine _ _

theorem addsConstructors_widgetsDefine : (widgetsDefine o n).AddsConstructors o := by
  unfold widgetsDefine
  -- the question, of a name that is not known yet, would be unfolded over and over
  generalize isQualified = qualified
  refine .bind .procedureName fun widget => .bind .bodyOf fun body => ?_
  refine .bind .value? fun result => ?_
  dsimp only
  split
  · exact trivial
  · exact .bind (.mapM fun _ => .variableName) fun _ => addsConstructors_defineRoutine _ _

/-! ### Windows -/

theorem addsConstructors_app : (app o n).AddsConstructors o := by
  refine .bind .forgetWidgets fun _ => ?_
  refine .bind .numberedValues fun placements => ?_
  exact .bind .constructors fun _ => trivial

end Template

/-! ### Kinds -/

theorem Kind.addsConstructors_of_widget {kind : Kind} {o : Options} {n : Node} {code : String}
    (widget : kind.constructor? o n = some code) : (kind.script o n).AddsConstructors o := by
  rcases script_of_constructor widget with ⟨error, same⟩ | ⟨piece, -, same⟩ <;> rw [same]
  · exact trivial
  · exact ⟨⟨kind, n, widget⟩, fun _ => trivial⟩

/-- Whatever kind a block is of, all that its script adds to the collection is constructors. -/
theorem Kind.addsConstructors (kind : Kind) (o : Options) (n : Node) :
    (kind.script o n).AddsConstructors o := by
  by_cases expression : kind.isExpression = true
  · by_cases tests : kind = .mathNumberProperty
    · exact tests ▸ addsConstructors_mathNumberProperty
    · exact .of_passesOn (Kind.passesOn expression (fun same => absurd same tests) o)
  · cases kind with
    | controlsIf | controlsIfElse => exact addsConstructors_controlsIf _
    | mathChange | variablesSet | variablesSetDynamic =>
        exact .bind .valueOr fun _ => .bind .variableName fun _ => trivial
    | textAppend => exact .bind .variableName fun _ => .bind .valueOr fun _ => trivial
    | textPrint => exact .bind .valueOr fun _ => trivial
    | listsSetIndex => exact addsConstructors_listsSetIndex
    | proceduresDefReturn | proceduresDefNoReturn => exact addsConstructors_proceduresDefine
    | proceduresCallNoReturn => exact .bind addsConstructors_procedureCall fun _ => trivial
    | proceduresIfReturn | widgetsIfReturn =>
        exact .bind .valueOr fun _ => .bind addsConstructors_returnLine fun _ => trivial
    | forever | onStart => exact .bind .bodyOf fun _ => trivial
    | wait => exact addsConstructors_wait
    | digitalTogglePin => exact .bind addsConstructors_pinOf fun _ => trivial
    | digitalWritePin =>
        exact .bind addsConstructors_pinOf fun _ => .bind addsConstructors_pinLevel fun _ => trivial
    | app => exact addsConstructors_app
    | label => exact addsConstructors_of_widget rfl
    | button => exact addsConstructors_of_widget rfl
    | widgetsDefReturn | widgetsDefNoReturn => exact addsConstructors_widgetsDefine
    | widgetsCallNoReturn => exact .bind addsConstructors_widgetCall fun _ => trivial
    | _ => exact absurd rfl expression

/-! ### Blocks -/

namespace Block
variable {o : Options}

/-! The parts of a rendering. -/

theorem addsConstructors_renderChain {child : Block}
    (h : (child.render o .statement false).Honours (collecting o) (child.events o false)
      fun _ => True) :
    (renderChain o child).Honours (collecting o) (child.events o false) fun _ => True := by
  refine h.andThen_quiet fun emitted _ => ?_
  cases emitted with
  | value code level => exact Pass.Honours.fail trivial
  | statement code => exact Pass.Honours.pure trivial
  | nothing => exact Pass.Honours.pure trivial

theorem addsConstructors_following {next : Option Block}
    (h : ∀ child ∈ next, (child.render o .statement false).Honours (collecting o)
      (child.events o false) fun _ => True) (alone : Bool) :
    (followingCode alone (renderNext o next)).Honours (collecting o)
      (followingEvents alone (nextEvents o next)) fun _ => True := by
  rw [nextEvents_eq, renderNext_eq]
  cases alone with
  | true => exact Pass.Honours.pure trivial
  | false =>
      cases next with
      | none => exact Pass.Honours.pure trivial
      | some child => exact addsConstructors_renderChain (h child rfl)

section Following
variable {next : Option (Pass String)} {record : Option (Ledger → List Event)} {alone : Bool}
  (following : (followingCode alone next).Honours (collecting o) (followingEvents alone record)
    fun _ => True)
include following

theorem addsConstructors_skipDisabled : (skipDisabled alone next).Honours (collecting o)
    (followingEvents alone record) fun _ => True := by
  unfold skipDisabled
  unfold followingCode at following
  split
  · exact following.andThen_quiet fun _ _ => Pass.Honours.pure (Q := fun _ => True) trivial
  · intro ledger fits relied
    obtain ⟨owed, -, -⟩ := following ledger fits relied
    exact ⟨owed, fits, trivial⟩

theorem addsConstructors_surround (kind : Kind) (n : Node) (remarks : String) (place : Place)
    (emitted : Emitted) :
    (surround o kind n remarks next place alone emitted).Honours (collecting o)
      (surroundEvents alone record emitted) fun _ => True := by
  cases emitted with
  | value code level => exact Pass.Honours.pure trivial
  | statement code => exact following.andThen_quiet fun _ _ => Pass.Honours.pure trivial
  | nothing => exact Pass.Honours.pure trivial

end Following

/-- If only constructors are added by the blocks in the inputs of a block, its script may rely on
that. -/
theorem collecting_holds {values statements : List (String × Block)} (remarks : String)
    (hv : ∀ input child, (input, child) ∈ values →
      (child.render o .value true).Honours (collecting o) (child.events o true) fun _ => True)
    (hs : ∀ input child, (input, child) ∈ statements →
      (child.render o .statement false).Honours (collecting o) (child.events o false)
        fun _ => True) :
    (collecting o).Holds o ⟨remarks, renderValues o values, renderStatements o statements⟩
      ⟨inputEvents o true values, inputEvents o false statements⟩ := by
  refine ⟨trivial, fun input level ledger => ?_, fun input ledger => ?_⟩
  · simp only [eventsIn, Surroundings.valueIn, get?_inputEvents, get?_renderValues]
    cases hc : Table.get? values input with
    | none => exact Pass.Honours.pure (fun _ _ => trivial) ledger
    | some child =>
        refine (hv input child (Table.mem_of_get? hc)).andThen_quiet (fun emitted _ => ?_) ledger
        cases emitted with
        | value code inner => exact Pass.Honours.pure fun _ _ => trivial
        | nothing => exact Pass.Honours.pure fun _ _ => trivial
        | statement code => exact Pass.Honours.fail trivial
  · simp only [eventsIn, Surroundings.bodyIn, get?_inputEvents, get?_renderStatements]
    cases hc : Table.get? statements input with
    | none => exact Pass.Honours.pure trivial ledger
    | some child =>
        have chain := addsConstructors_renderChain (hs input child (Table.mem_of_get? hc))
        exact chain.andThen_quiet (fun _ _ => Pass.Honours.pure trivial) ledger

/-- All that is added to the collection, while a block is rendered, is constructors. -/
theorem addsConstructors (b : Block) (place : Place) (alone : Bool) :
    (b.render o place alone).Honours (collecting o) (b.events o alone) fun _ => True := by
  induction b generalizing place alone with
  | mk node values statements next ihv ihs ihn =>
      have following := addsConstructors_following
        (fun child hc => ihn child hc .statement false) alone
      rw [events_eq, render_eq]
      unfold renderNode nodeEvents
      by_cases off : node.disabled = true
      · simp only [if_pos off]
        exact addsConstructors_skipDisabled following
      · simp only [if_neg off]
        cases known : Kind.ofTypeName? node.kindName with
        | none => exact Pass.Honours.fail trivial
        | some kind =>
            have holds := collecting_holds (remarkLines kind node values)
              (fun input child hi => ihv (input, child) hi .value true)
              (fun input child hi => ihs (input, child) hi .statement false)
            have script := (kind.addsConstructors o node).run holds
            exact script.andThen fun emitted _ =>
              addsConstructors_surround following kind node _ place emitted

end Block

end BlockScript
