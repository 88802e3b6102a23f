import BlockScript.Proofs.Generator.Defined
import BlockScript.Proofs.Rendering.Visits
import BlockScript.Proofs.Template.Complaints
import BlockScript.Proofs.Template.Passing
import BlockScript.Proofs.Template.Printing
import BlockScript.Proofs.Template.Routines
import BlockScript.Proofs.Text.WholeLines

/-! # Widgets and their constructors

A widget leaves two pieces of code. The one that puts it into a column is passed on through the
values around it. The one that makes it is collected on the side, under the name of the widget, by all
windows alike, and each window starts the collection anew. -/

namespace BlockScript

open Ledger Template

/-! ### The collection -/

/-- Among events, the last one about a widget of a name adds a constructor, and the collection is not
started anew behind it. -/
def Collects (name code : String) (events : List Event) : Prop :=
  ∃ before later, events = before ++ .addWidget name code :: later ∧ .clearWidgets ∉ later ∧
    ∀ other, .addWidget name other ∉ later

section Collects
variable {name code : String} {e : Event} {events : List Event}

theorem not_collects_nil : ¬ Collects name code [] := by
  rintro ⟨before, later, split, -⟩
  exact absurd split (by simp)

theorem collects_cons : Collects name code (e :: events) ↔ Collects name code events ∨
    e = .addWidget name code ∧ .clearWidgets ∉ events ∧ ∀ other, .addWidget name other ∉ events := by
  constructor
  · rintro ⟨before, later, split, uncleared, last⟩
    cases before with
    | nil =>
        obtain ⟨rfl, rfl⟩ := List.cons.inj split
        exact .inr ⟨rfl, uncleared, last⟩
    | cons first rest =>
        obtain ⟨rfl, rfl⟩ := List.cons.inj split
        exact .inl ⟨rest, later, rfl, uncleared, last⟩
  · rintro (⟨before, later, rfl, uncleared, last⟩ | ⟨rfl, uncleared, last⟩)
    · exact ⟨e :: before, later, rfl, uncleared, last⟩
    · exact ⟨[], events, rfl, uncleared, last⟩

theorem Collects.mem (h : Collects name code events) : .addWidget name code ∈ events := by
  obtain ⟨before, later, rfl, -⟩ := h
  exact List.mem_append_right before List.mem_cons_self

/-- Where a name has one constructor only, it does not matter which of its events is the last. -/
theorem Collects.of_mem (h : .addWidget name code ∈ events) (uncleared : .clearWidgets ∉ events)
    (one : ∀ other, .addWidget name other ∈ events → other = code) : Collects name code events := by
  induction events with
  | nil => exact absurd h List.not_mem_nil
  | cons e rest ih =>
      simp only [List.mem_cons, not_or] at uncleared one
      rw [collects_cons]
      by_cases again : .addWidget name code ∈ rest
      · exact .inl (ih again uncleared.2 fun other mem => one other (.inr mem))
      · have first : e = .addWidget name code := ((List.mem_cons.mp h).resolve_right again).symm
        refine .inr ⟨first, uncleared.2, fun other mem => again ?_⟩
        exact one other (.inr mem) ▸ mem

end Collects

/-- What an event makes of the collection. -/
def Event.collect (widgets : Table String) : Event → Table String
  | .clearWidgets => []
  | .addWidget widget code => widgets.put widget code
  | _ => widgets

/-- The values of a table are what is under its keys. -/
theorem Table.mem_values_iff {α : Type} {t : Table α} (distinct : t.keys.Nodup) {value : α} :
    value ∈ t.values ↔ ∃ key, t.get? key = some value := by
  induction t with
  | nil => simp [values]
  | cons entry rest ih =>
      obtain ⟨fresh, distinct⟩ := List.nodup_cons.mp distinct
      simp only [values, List.map_cons, List.mem_cons]
      rw [← values, ih distinct]
      constructor
      · rintro (rfl | ⟨key, found⟩)
        · exact ⟨entry.1, by simp [get?]⟩
        · refine ⟨key, ?_⟩
          rw [get?, if_neg, found]
          rintro rfl
          rw [(get?_eq_none_iff rest entry.1).mpr fresh] at found
          cases found
      · rintro ⟨key, found⟩
        unfold get? at found
        split at found
        · exact .inl (Option.some.inj found).symm
        · exact .inr ⟨key, found⟩

namespace Ledger
variable {indent : String} {ledger mid after : Ledger} {e : Event} {events : List Event}

theorem Step.widgets_eq (h : Step indent ledger e after) :
    after.widgets = e.collect ledger.widgets := by
  cases h <;> rfl

/-- A constructor is in the collection after some events if they collect it, or if it was there before
and they leave it alone. -/
theorem Steps.get?_widgets (h : Steps indent ledger events after) (widget code : String) :
    after.widgets.get? widget = some code ↔ Collects widget code events ∨
      ledger.widgets.get? widget = some code ∧ .clearWidgets ∉ events ∧
        ∀ other, .addWidget widget other ∉ events := by
  induction h with
  | refl ledger => simp [not_collects_nil]
  | @cons ledger mid after e events head tail ih =>
      rw [ih, collects_cons, head.widgets_eq]
      cases e with
      | clearWidgets => simp [Event.collect]
      | addWidget widget' code' =>
          by_cases same : widget' = widget
          · subst same
            simp only [Event.collect, Table.get?_put_self, Option.some.injEq,
              Event.addWidget.injEq, true_and]
            rw [or_iff_left (a := _ ∨ _)]
            rintro ⟨-, -, untouched⟩
            exact untouched code' List.mem_cons_self
          · simp [Event.collect, Table.get?_put_of_ne _ _ same, same, Ne.symm same]
      | _ => simp [Event.collect]

/-- No widget is in the collection twice. -/
theorem Steps.nodup_widgets (h : Steps indent ledger events after)
    (distinct : ledger.widgets.keys.Nodup) : after.widgets.keys.Nodup := by
  induction h with
  | refl => exact distinct
  | @cons ledger mid after e events head tail ih =>
      refine ih ?_
      rw [head.widgets_eq]
      cases e with
      | clearWidgets => exact List.nodup_nil
      | addWidget widget code => exact Table.nodup_keys_put distinct widget code
      | _ => exact distinct

/-- What a new collection holds after some events. -/
theorem Steps.mem_widgets_iff (h : Steps indent ledger events after) (empty : ledger.widgets = [])
    {code : String} : code ∈ after.widgets.values ↔ ∃ widget, Collects widget code events := by
  have distinct : after.widgets.keys.Nodup := h.nodup_widgets (empty ▸ List.nodup_nil)
  simp [Table.mem_values_iff distinct, h.get?_widgets, empty]

end Ledger

/-! ### Widgets -/

/-- The constructor that a widget adds to the collection. -/
def Kind.constructor? (o : Options) (n : Node) : Kind → Option String
  | .label => some (labelConstructor o (widgetName n))
  | .button => some (buttonConstructor (widgetName n))
  | _ => none

/-- The space around a widget is a number, or the widget fails. -/
theorem padding_cases (n : Node) :
    (∃ space, padding n = .done space) ∨ ∃ error, padding n = .fail error := by
  unfold padding
  dsimp only
  split
  · exact .inl ⟨_, rfl⟩
  · exact .inr ⟨_, rfl⟩

namespace Kind
variable {kind : Kind} {o : Options} {n : Node} {code : String} {s : Surroundings} {r : Records}
  {ledger after : Ledger} {emitted : Emitted}

theorem eq_of_constructor (widget : kind.constructor? o n = some code) :
    (kind = .label ∧ code = labelConstructor o (widgetName n)) ∨
      (kind = .button ∧ code = buttonConstructor (widgetName n)) := by
  cases kind with
  | label => exact .inl ⟨rfl, (Option.some.inj widget).symm⟩
  | button => exact .inr ⟨rfl, (Option.some.inj widget).symm⟩
  | _ => cases widget

/-- The constructor of a widget makes it under its name, on a line of its own. -/
theorem makes_of_constructor (widget : kind.constructor? o n = some code) :
    ∃ front rest, code = Text.wholeLines front ++ ("let " ++ widgetName n ++ " = ") ++ rest := by
  have ends {text line : String} (front : List String) (rest : String)
      (joined : text = Text.joinLines (front ++ [line]))
      (last : line = "let " ++ widgetName n ++ " = " ++ rest) :
      ∃ front rest, text = Text.wholeLines front ++ ("let " ++ widgetName n ++ " = ") ++ rest := by
    refine ⟨front, rest, ?_⟩
    rw [joined, Text.joinLines_concat, last, ← String.append_assoc]
  rcases eq_of_constructor widget with ⟨-, rfl⟩ | ⟨-, rfl⟩
  · have made : " = Label::new(" = " = " ++ "Label::new(" := by decide
    refine ends [_, _, _, _] ("Label::new(" ++ widgetName n ++ "_text);") rfl ?_
    simp only [made, String.append_assoc]
  · have made : " = Button::new(\"increment\", " = " = " ++ "Button::new(\"increment\", " := by
      decide
    let handler := "on_" ++ widgetName n ++ "_press"
    refine ends [_] ("Button::new(\"increment\", " ++ handler ++ ");  //  Call `" ++ handler ++
      "` when pressed") rfl ?_
    simp only [made, handler, String.append_assoc]

/-- A widget adds its constructor to the collection, and leaves code that puts it into a column,
under a comment. -/
theorem script_of_constructor (widget : kind.constructor? o n = some code) :
    (∃ error, kind.script o n = .fail error) ∨ ∃ piece, '/' ∈ piece.toList ∧
      kind.script o n = .addWidget (widgetName n) code (.done (.value piece .anything)) := by
  have commented (comment : String) (slash : '/' ∈ comment.toList) (lines : List String) :
      '/' ∈ (Text.joinLines (comment :: lines)).toList :=
    (Carries.self.intercalate List.mem_cons_self "\n").slash slash
  rcases eq_of_constructor widget with ⟨rfl, rfl⟩ | ⟨rfl, rfl⟩
  · rcases padding_cases n with ⟨space, known⟩ | ⟨error, known⟩ <;>
      simp only [script, Template.label, known]
    · refine .inr ⟨_, commented _ ?_ _, rfl⟩
      decide
    · exact .inl ⟨error, rfl⟩
  · rcases padding_cases n with ⟨space, known⟩ | ⟨error, known⟩ <;>
      simp only [script, Template.button, known]
    · refine .inr ⟨_, commented _ ?_ _, rfl⟩
      decide
    · exact .inl ⟨error, rfl⟩

/-- The script of a widget asks for no code. -/
theorem inquiries_of_constructor (widget : kind.constructor? o n = some code) :
    (kind.script o n).inquiries o s ledger = [] := by
  rcases script_of_constructor widget with ⟨error, same⟩ | ⟨piece, -, same⟩ <;> rw [same] <;> rfl

theorem events_of_constructor (widget : kind.constructor? o n = some code) :
    ∀ e ∈ (kind.script o n).events o s r ledger, e = .addWidget (widgetName n) code := by
  rcases script_of_constructor widget with ⟨error, same⟩ | ⟨piece, -, same⟩ <;> rw [same]
  · exact fun e mem => absurd mem List.not_mem_nil
  · exact fun e mem => List.mem_singleton.mp mem

theorem run_of_constructor (widget : kind.constructor? o n = some code)
    (run : (kind.script o n).run o s ledger = (.ok emitted, after)) :
    (∃ piece level, emitted = .value piece level ∧ '/' ∈ piece.toList) ∧
      .addWidget (widgetName n) code ∈ (kind.script o n).events o s r ledger := by
  rcases script_of_constructor widget with ⟨error, same⟩ | ⟨piece, slash, same⟩ <;>
    rw [same] at run ⊢
  · exact absurd (congrArg Prod.fst run) (by simp [Script.run, Pass.fail])
  · obtain ⟨rfl, -⟩ := Pass.pure_eq_ok.mp run
    exact ⟨⟨piece, .anything, rfl, slash⟩, List.mem_singleton_self _⟩

end Kind

/-- Kinds that are neither expressions nor definitions nor parts of a window are statements. -/
theorem Kind.leavesStatement_of {kind : Kind} {o : Options} {n : Node}
    (compound : kind.isExpression = false) (ordinary : kind.isProcedureDefinition = false)
    (inner : kind ≠ .app) (other : kind.constructor? o n = none) : kind.leavesStatement n = true := by
  cases kind with
  | app => exact absurd rfl inner
  | label | button => cases other
  | proceduresDefReturn | proceduresDefNoReturn | widgetsDefReturn | widgetsDefNoReturn =>
      cases ordinary
  | controlsIf | controlsIfElse | mathChange | textAppend | textPrint | listsSetIndex | variablesSet
  | variablesSetDynamic | proceduresCallNoReturn | proceduresIfReturn | forever | wait
  | digitalTogglePin | digitalWritePin | onStart | widgetsCallNoReturn | widgetsIfReturn => rfl
  | _ => cases compound

/-! ### Blocks that are rendered for another one -/

namespace Block
variable {o : Options} {b child : Block} {kind : Kind} {ledger mid after : Ledger}
  {emitted : Emitted}

/-- While a block is rendered from some ledger on, its script asks for the code of another one. -/
inductive Asks (o : Options) : Block × Ledger → Block × Ledger → Prop
  | mk {b child : Block} {ledger mid : Ledger} {kind : Kind} {input : String} {level : Precedence}
      (isOn : b.IsOn kind)
      (asked : ⟨input, level, mid⟩ ∈
        (kind.script o b.node).inquiries o (b.ownSurroundings o kind) ledger)
      (plugged : b.value? input = some child) : Asks o (b, ledger) (child, mid)

theorem asks_iff (isOn : b.IsOn kind) : Asks o (b, ledger) (child, mid) ↔ ∃ input level,
    ⟨input, level, mid⟩ ∈ (kind.script o b.node).inquiries o (b.ownSurroundings o kind) ledger ∧
      b.value? input = some child := by
  constructor
  · rintro ⟨isOn', asked, plugged⟩
    obtain rfl := isOn.unique isOn'
    exact ⟨_, _, asked, plugged⟩
  · rintro ⟨input, level, asked, plugged⟩
    exact .mk isOn asked plugged

theorem Asks.exists_isOn (h : Asks o (b, ledger) (child, mid)) : ∃ kind, b.IsOn kind := by
  cases h with
  | mk isOn asked plugged => exact ⟨_, isOn⟩

theorem Asks.exists_plugged (h : Asks o (b, ledger) (child, mid)) :
    ∃ input, b.value? input = some child := by
  cases h with
  | mk isOn asked plugged => exact ⟨_, plugged⟩

/-- For the inputs of a block, at any depth, a part of it is rendered at some moment. -/
def Renders (o : Options) (b : Block) (ledger : Ledger) (part : Block) (moment : Ledger) : Prop :=
  Relation.TransGen (Asks o) (b, ledger) (part, moment)

/-- Does a block leave code in an input? -/
def Fills (b : Block) (input : String) : Prop :=
  ((b.value? input).any fun child => child.node.leavesCode) = true

/-- The events of the script of an enabled block that is rendered as a value are all that it has. -/
theorem IsOn.events_eq (isOn : b.IsOn kind) (ledger : Ledger) :
    b.events o true ledger =
      (kind.script o b.node).events o (b.ownSurroundings o kind) (b.ownRecords o) ledger := by
  have silent : surroundEvents true (nextEvents o b.next) = fun _ _ => [] := by
    funext emitted ledger
    cases emitted <;> rfl
  rw [isOn.events_eq_append, silent, Pass.eventsAfter]
  split <;> exact List.append_nil _

/-- What is rendered as a value and makes events is enabled, and its kind is known. -/
theorem exists_isOn_of_event {e : Event} (mem : e ∈ b.events o true ledger) :
    ∃ kind, b.IsOn kind := by
  rw [events_eq, nodeEvents] at mem
  split at mem
  · exact absurd mem List.not_mem_nil
  · next on =>
      split at mem
      · exact absurd mem List.not_mem_nil
      · next kind known => exact ⟨kind, eq_false_of_ne_true on, known⟩

/-- What is rendered for a block adds its events to those of the block. -/
theorem Asks.exists_events_eq (h : Asks o (b, ledger) (child, mid)) :
    ∃ front back, b.events o true ledger = front ++ (child.events o true mid ++ back) ∧
      Steps o.indent ledger front mid := by
  cases h with
  | mk isOn asked plugged =>
      obtain ⟨front, back, split, steps⟩ := Script.occurs_of_mem_inquiries (b.tell o _) asked
      rw [eventsIn_inputEvents plugged] at split
      exact ⟨front, back, isOn.events_eq ledger ▸ split, steps⟩

theorem Asks.reachable (h : Asks o (b, ledger) (child, mid)) (reachable : Reachable o.indent ledger) :
    Reachable o.indent mid := by
  obtain ⟨front, back, -, steps⟩ := h.exists_events_eq
  exact reachable.of_steps steps

theorem Asks.mem_events {e : Event} (h : Asks o (b, ledger) (child, mid))
    (mem : e ∈ child.events o true mid) : e ∈ b.events o true ledger := by
  obtain ⟨front, back, split, -⟩ := h.exists_events_eq
  rw [split]
  exact List.mem_append_right front (List.mem_append_left back mem)

theorem Asks.walk_subset (h : Asks o (b, ledger) (child, mid)) :
    child.walk ⊆ walkInputs b.values := by
  obtain ⟨input, plugged⟩ := h.exists_plugged
  rw [walkInputs_eq]
  exact fun n mem => List.mem_flatMap.mpr ⟨_, Table.mem_of_get? plugged, mem⟩

/-- All that is rendered for a block is below it. -/
theorem walk_subset_of_asks {finish : Block × Ledger}
    (path : Relation.TransGen (Asks o) (b, ledger) finish) :
    finish.1.walk ⊆ walkInputs b.values := by
  induction path with
  | single step => exact step.walk_subset
  | tail _ step ih =>
      next middle finish =>
      refine fun n mem => ih ?_
      rw [walk_eq]
      exact List.mem_cons_of_mem _ (List.mem_append_left _ (step.walk_subset mem))

/-- An input that a block leaves code in is answered by some. -/
theorem ne_none_of_fills {α : Type} {script : Script α} {remarks : String}
    (reachable : Reachable o.indent ledger) :
    ∀ q ∈ script.inquiries o (b.surroundings o remarks) ledger, b.Fills q.input →
      ∀ code mid, q.answer (b.surroundings o remarks) = (.ok code, mid) → code ≠ none := by
  intro q asked fills code mid answer
  obtain ⟨front, back, -, steps⟩ := Script.occurs_of_mem_inquiries (b.tell o remarks) asked
  have given := isSome_valueIn (reachable.of_steps steps) answer
  rw [fills] at given
  exact Option.isSome_iff_ne_none.mp given

/-- In a value input, a block is rendered without an error, and not to a statement. -/
structure GivesValue (o : Options) (b : Block) (ledger : Ledger) (emitted : Emitted) : Prop where
  run : (b.render o .value true ledger).1 = .ok emitted
  value : ∀ text, emitted ≠ .statement text

/-- The block that an answer is about gives a value, and the answer is its code. -/
theorem exists_givesValue_of_answer {q : Inquiry} {remarks : String} {code : Option String}
    (plugged : b.value? q.input = some child)
    (answer : q.answer (b.surroundings o remarks) = (.ok code, mid)) :
    ∃ emitted, child.GivesValue o q.ledger emitted ∧
      ∀ text inner, emitted = .value text inner → '/' ∈ text.toList →
        ∃ fitted, code = some fitted ∧ Carries text fitted ∧ '/' ∈ fitted.toList := by
  rw [Inquiry.answer, valueIn_of_plugged plugged] at answer
  obtain ⟨emitted, after, run, shown⟩ := Pass.andThen_eq_ok.mp answer
  refine ⟨emitted, ⟨congrArg Prod.fst run, ?_⟩, ?_⟩
  · rintro text rfl
    simp [valueCode, Pass.fail] at shown
  · rintro text inner rfl slash
    obtain ⟨rfl, -⟩ := Pass.pure_eq_ok.mp shown
    have nonempty : text ≠ "" := by
      rintro rfl
      exact absurd slash List.not_mem_nil
    have wrapped : Carries text (Precedence.wrap text inner q.level) := .wrap .self inner q.level
    exact ⟨_, if_neg nonempty, wrapped, wrapped.slash slash⟩

/-- What a script leaves is what its block leaves as a value. -/
theorem GivesValue.exists_run (h : b.GivesValue o ledger emitted) (isOn : b.IsOn kind) :
    ∃ mid, (kind.script o b.node).run o (b.ownSurroundings o kind) ledger = (.ok emitted, mid) := by
  obtain ⟨own, mid, events, runs, around, -⟩ :=
    runs_script isOn.on isOn.known (Prod.ext h.run rfl)
  refine ⟨mid, ?_⟩
  cases own with
  | value text level =>
      obtain ⟨rfl, -⟩ := Pass.pure_eq_ok.mp around
      simpa [remarksAt] using runs.run
  | statement text =>
      obtain ⟨left, -⟩ := Prod.mk.inj around
      obtain rfl := Except.ok.inj left
      exact absurd rfl (h.value _)
  | nothing =>
      obtain ⟨rfl, -⟩ := Pass.pure_eq_ok.mp around
      exact runs.run

/-- The constructor of a block that is an enabled widget. -/
def constructor? (o : Options) (b : Block) : Option String :=
  if b.node.disabled then none
  else (Kind.ofTypeName? b.node.kindName).bind (Kind.constructor? o b.node)

theorem constructor?_eq_some_iff {code : String} : b.constructor? o = some code ↔
    ∃ kind, b.IsOn kind ∧ kind.constructor? o b.node = some code := by
  unfold constructor?
  split
  · next off =>
      constructor
      · intro absent
        cases absent
      · rintro ⟨kind, isOn, -⟩
        exact absurd (off.symm.trans isOn.on) Bool.noConfusion
  · next on =>
      rw [Option.bind_eq_some_iff]
      constructor
      · rintro ⟨kind, known, constructs⟩
        exact ⟨kind, ⟨eq_false_of_ne_true on, known⟩, constructs⟩
      · rintro ⟨kind, isOn, constructs⟩
        exact ⟨kind, isOn.known, constructs⟩

/-- A widget asks for no code. -/
theorem Asks.constructor?_eq_none (isOn : b.IsOn kind) (h : Asks o (b, ledger) (child, mid)) :
    kind.constructor? o b.node = none := by
  obtain ⟨input, level, asked, -⟩ := (asks_iff isOn).mp h
  rw [Option.eq_none_iff_forall_ne_some]
  intro code widget
  rw [Kind.inquiries_of_constructor widget] at asked
  exact absurd asked List.not_mem_nil

/-! ### Harmless blocks -/

/-- A block whose code stands in a window together with all that it is given: no definition and no
window itself, and no test for divisibility without a divisor. -/
structure Harmless (b : Block) : Prop where
  ordinary : ¬ b.node.Defines
  inner : ¬ b.IsOn .app
  divided : b.IsOn .mathNumberProperty → b.node.field "PROPERTY" = some "DIVISIBLE_BY" →
    b.Fills "DIVISOR"

/-- A harmless block that gives a value is an expression or a widget. -/
theorem Harmless.cases (h : b.Harmless) (isOn : b.IsOn kind)
    (gives : b.GivesValue o ledger emitted) :
    kind.isExpression = true ∨ ∃ code, kind.constructor? o b.node = some code := by
  by_contra other
  simp only [not_or, not_exists, Bool.not_eq_true] at other
  have ordinary : kind.isProcedureDefinition = false :=
    eq_false_of_ne_true fun definition => h.ordinary ⟨isOn.on, kind, isOn.known, definition⟩
  have inner : kind ≠ .app := fun same => h.inner (same ▸ isOn)
  have statement := Kind.leavesStatement_of (n := b.node) other.1 ordinary inner
    (Option.eq_none_iff_forall_ne_some.mpr other.2)
  obtain ⟨mid, script⟩ := gives.exists_run isOn
  have leaves := (Kind.leaves (r := .any) trivial statement o).run
    (Replies.any_hold o (b.ownSurroundings o kind) ⟨[], []⟩) ledger
  rw [script] at leaves
  obtain ⟨text, rfl⟩ := leaves
  exact gives.value text rfl

section Expressions
variable (h : b.Harmless) (isOn : b.IsOn kind) (expression : kind.isExpression = true)
include h isOn expression

theorem Harmless.passesOn (o : Options) :
    (kind.script o b.node).PassesOn b.Fills Emitted.PassesOn :=
  Kind.passesOn expression (fun same => h.divided (same ▸ isOn)) o

variable (reachable : Reachable o.indent ledger)
include reachable

/-- What happens to the collection while an expression is rendered happens while one of its inputs
is. -/
theorem Harmless.exists_asks {e : Event} (mem : e ∈ b.events o true ledger)
    (about : e.isAboutWidgets = true) :
    ∃ child mid, Asks o (b, ledger) (child, mid) ∧ e ∈ child.events o true mid := by
  rw [isOn.events_eq] at mem
  obtain ⟨q, asked, inside⟩ := (h.passesOn isOn expression o).exists_inquiry
    (ne_none_of_fills reachable) mem about
  obtain ⟨child, plugged, inside⟩ := exists_child_of_event inside
  exact ⟨child, q.ledger, .mk isOn asked plugged, inside⟩

/-- An expression leaves code, and in it stands the code of all that it asks for. -/
theorem Harmless.carries (gives : b.GivesValue o ledger emitted) :
    ∃ text level, emitted = .value text level ∧ ∀ child mid, Asks o (b, ledger) (child, mid) →
      ∃ emitted', child.GivesValue o mid emitted' ∧
        ∀ code inner, emitted' = .value code inner → '/' ∈ code.toList → Carries code text := by
  obtain ⟨last, script⟩ := gives.exists_run isOn
  obtain ⟨given, passes, answers⟩ := (h.passesOn isOn expression o).run
    (ne_none_of_fills reachable) script
  cases emitted with
  | statement text => exact absurd rfl (gives.value text)
  | nothing =>
      have definition := (Kind.eq_nothing_iff script).mp rfl
      exact absurd ⟨isOn.on, kind, isOn.known, definition⟩ h.ordinary
  | value text level =>
      refine ⟨text, level, rfl, fun child mid step => ?_⟩
      obtain ⟨input, level, asked, plugged⟩ := (asks_iff isOn).mp step
      obtain ⟨answer, _, answered, all⟩ := answers _ asked
      obtain ⟨emitted', gives', shown⟩ := exists_givesValue_of_answer plugged answered
      refine ⟨emitted', gives', fun code inner left slash => ?_⟩
      obtain ⟨fitted, replied, fits, slash'⟩ := shown code inner left slash
      exact fits.trans (passes fitted (all fitted replied) slash')

end Expressions

/-! ### Widgets at any depth -/

/-- What a widget leaves stands in the code of each harmless block around it, and its constructor is
added when that one is rendered. -/
theorem carries_of_asks {start : Block × Ledger} {widget : Block} {moment : Ledger} {code : String}
    (path : Relation.ReflTransGen (Asks o) start (widget, moment))
    (made : widget.constructor? o = some code)
    (harmless : ∀ part moment, Relation.ReflTransGen (Asks o) start (part, moment) → part.Harmless)
    (reachable : Reachable o.indent start.2) (gives : start.1.GivesValue o start.2 emitted) :
    ∃ piece inner text level, emitted = .value text level ∧
      (widget.render o .value true moment).1 = .ok (.value piece inner) ∧
      '/' ∈ piece.toList ∧ Carries piece text ∧
      .addWidget (widgetName widget.node) code ∈ start.1.events o true start.2 := by
  obtain ⟨kind, isOn, constructs⟩ := constructor?_eq_some_iff.mp made
  induction path using Relation.ReflTransGen.head_induction_on generalizing emitted with
  | refl =>
      obtain ⟨mid, script⟩ := gives.exists_run isOn
      obtain ⟨⟨piece, level, rfl, slash⟩, added⟩ := Kind.run_of_constructor constructs script
      refine ⟨piece, level, piece, level, rfl, gives.run, slash, .self, ?_⟩
      rw [isOn.events_eq]
      exact added
  | head step rest ih =>
      next start child =>
      obtain ⟨outer, ledger⟩ := start
      obtain ⟨inner, mid⟩ := child
      have safe := harmless outer ledger .refl
      obtain ⟨kind', isOn'⟩ := step.exists_isOn
      have expression : kind'.isExpression = true := by
        refine (safe.cases isOn' gives).resolve_right ?_
        rintro ⟨other, constructs'⟩
        rw [step.constructor?_eq_none isOn'] at constructs'
        cases constructs'
      obtain ⟨text, level', rfl, passes⟩ := safe.carries isOn' expression reachable gives
      obtain ⟨emitted', gives', carried⟩ := passes inner mid step
      have below : ∀ part moment, Relation.ReflTransGen (Asks o) (inner, mid) (part, moment) →
          part.Harmless :=
        fun part moment path => harmless part moment (.head step path)
      obtain ⟨piece, level, text', between, rfl, left, slash, stands, added⟩ :=
        ih below (step.reachable reachable) gives'
      have above := carried text' between rfl (stands.slash slash)
      exact ⟨piece, level, text, level', rfl, left, slash, stands.trans above,
        step.mem_events added⟩

/-- Whatever happens to the collection while a harmless block is rendered, with all below it, is that a
widget there adds its constructor. -/
theorem exists_widget_of_event {e : Event} (about : e.isAboutWidgets = true)
    (harmless : ∀ part moment,
      Relation.ReflTransGen (Asks o) (b, ledger) (part, moment) → part.Harmless)
    (reachable : Reachable o.indent ledger) (gives : b.GivesValue o ledger emitted)
    (mem : e ∈ b.events o true ledger) :
    ∃ widget moment code, Relation.ReflTransGen (Asks o) (b, ledger) (widget, moment) ∧
      widget.constructor? o = some code ∧ e = .addWidget (widgetName widget.node) code := by
  induction b generalizing ledger emitted with
  | mk node values statements next ih _ _ =>
      obtain ⟨kind, isOn⟩ := exists_isOn_of_event mem
      have safe := harmless _ _ .refl
      rcases safe.cases isOn gives with expression | ⟨code, constructs⟩
      · obtain ⟨child, mid, step, inside⟩ := safe.exists_asks isOn expression reachable mem about
        obtain ⟨text, level, rfl, passes⟩ := safe.carries isOn expression reachable gives
        obtain ⟨emitted', gives', -⟩ := passes child mid step
        have below : ∀ part moment, Relation.ReflTransGen (Asks o) (child, mid) (part, moment) →
            part.Harmless :=
          fun part moment path => harmless part moment (.head step path)
        obtain ⟨input, plugged⟩ := step.exists_plugged
        obtain ⟨widget, moment, code, path, made, same⟩ :=
          ih (input, child) (Table.mem_of_get? plugged) below (step.reachable reachable) gives' inside
        exact ⟨widget, moment, code, .head step path, made, same⟩
      · rw [isOn.events_eq] at mem
        exact ⟨_, ledger, code, .refl, constructor?_eq_some_iff.mpr ⟨kind, isOn, constructs⟩,
          Kind.events_of_constructor constructs e mem⟩

end Block

end BlockScript
