import BlockScript.Proofs.Generator.Links
import BlockScript.Proofs.Generator.Widgets

/-! # Windows

The function that builds a window makes widgets and then puts them into a column. It makes all that it
places, and nothing else, if no window stands in another one, no label has the name of a button, and
no expression on the way keeps the code of a widget to itself. -/

namespace BlockScript

open Ledger Template

/-- The function that builds a window: what makes the widgets, and then the column for them. -/
def windowCode (o : Options) (made placements : List String) : String :=
  let body := Text.joinLines
    ["console::print(\"Rhai UI builder\\n\"); console::flush();",
      Text.joinLines made,
      "",
      "//  Create a column",
      "let mut col = Column::new();",
      Text.joinLines placements,
      "//  Return the column containing the widgets",
      "col"]
  let head := ["/// Build the UI for the window",
    "fn ui_builder() -> impl Widget<State> \x7b  //  `State` is the Application State"]
  Text.joinLines (head ++ Text.indented body o.indent ++ ["\x7d"])

/-- The code in the inputs of a window. -/
def windowInputs (n : Node) : Script (List String) :=
  Script.numberedValues "ADD" .anything "''" n.mutation.items

/-- A window starts the collection anew, asks for the code in its inputs, and puts the collection
before it. -/
theorem Kind.script_app (o : Options) (n : Node) :
    Kind.app.script o n = .clearWidgets (windowInputs n >>= fun placements =>
      Script.constructors >>= fun made =>
        .done (.value (windowCode o made placements) .anything)) := rfl

/-- The column takes over the code that a window is given, whatever its inputs hold. -/
theorem passesOn_windowInputs (n : Node) : (windowInputs n).PassesOn (fun _ => False)
    fun texts given => ∀ code ∈ given, '/' ∈ code.toList → ∃ text ∈ texts, Carries code text :=
  passesOn_numberedValues "ADD" .anything "''" n.mutation.items

namespace Block
variable {o : Options} {window child : Block} {ledger filled mid : Ledger}
  {placements : List String} {place : Place} {alone : Bool} {emitted : Emitted}

/-- A window whose parts are harmless, and where no label has the name of a button. -/
structure Orderly (o : Options) (window : Block) (ledger : Ledger) : Prop where
  parts : ∀ part moment, window.Renders o ledger part moment → part.Harmless
  apart : ∀ label button moment moment', window.Renders o ledger label moment →
    window.Renders o ledger button moment' → label.IsOn .label → button.IsOn .button →
      widgetName label.node ≠ widgetName button.node

/-- Nodes tell that a window is orderly, whatever the ledger is. -/
theorem orderly_of_walk (ledger : Ledger)
    (plain : ∀ n ∈ walkInputs window.values, ∀ kind ∈ Kind.ofTypeName? n.kindName,
      kind ≠ .app ∧ kind ≠ .mathNumberProperty ∧ kind.isProcedureDefinition = false)
    (apart : ∀ label ∈ walkInputs window.values, ∀ button ∈ walkInputs window.values,
      Kind.ofTypeName? label.kindName = some .label →
        Kind.ofTypeName? button.kindName = some .button → widgetName label ≠ widgetName button) :
    window.Orderly o ledger := by
  have below {part : Block} {moment : Ledger} (shown : window.Renders o ledger part moment) :
      part.node ∈ walkInputs window.values :=
    walk_subset_of_asks shown part.node_mem_walk
  refine ⟨fun part moment shown => ⟨?_, ?_, ?_⟩, ?_⟩
  · rintro ⟨-, kind, known, definition⟩
    exact Bool.noConfusion ((plain _ (below shown) kind known).2.2.symm.trans definition)
  · exact fun isOn => (plain _ (below shown) _ isOn.known).1 rfl
  · exact fun isOn _ => absurd rfl (plain _ (below shown) _ isOn.known).2.1
  · intro label button moment moment' shown shown' isLabel isButton
    exact apart _ (below shown) _ (below shown') isLabel.known isButton.known

/-- What a window asks for is harmless, with all below it. -/
theorem Orderly.harmless (orderly : window.Orderly o ledger)
    (step : Asks o (window, ledger) (child, mid)) (part : Block) (moment : Ledger)
    (path : Relation.ReflTransGen (Asks o) (child, mid) (part, moment)) : part.Harmless :=
  orderly.parts part moment (.head' step path)

/-- Widgets of one name have one constructor. -/
theorem Orderly.constructor_eq (orderly : window.Orderly o ledger) {first second : Block}
    {moment moment' : Ledger} {code code' : String}
    (shown : window.Renders o ledger first moment) (shown' : window.Renders o ledger second moment')
    (made : first.constructor? o = some code) (made' : second.constructor? o = some code')
    (named : widgetName first.node = widgetName second.node) : code = code' := by
  obtain ⟨kind, isOn, constructs⟩ := constructor?_eq_some_iff.mp made
  obtain ⟨kind', isOn', constructs'⟩ := constructor?_eq_some_iff.mp made'
  rcases Kind.eq_of_constructor constructs with ⟨rfl, rfl⟩ | ⟨rfl, rfl⟩ <;>
    rcases Kind.eq_of_constructor constructs' with ⟨rfl, rfl⟩ | ⟨rfl, rfl⟩
  · rw [named]
  · exact absurd named (orderly.apart _ _ _ _ shown shown' isOn isOn')
  · exact absurd named.symm (orderly.apart _ _ _ _ shown' shown isOn' isOn)
  · rw [named]

/-- A window is built from its inputs and from the collection that is there after them. -/
theorem exists_run_of_window (isOn : window.IsOn .app)
    (run : (window.render o place alone ledger).1 = .ok emitted) :
    ∃ placements filled,
      (windowInputs window.node).run o (window.ownSurroundings o .app) ledger.clearWidgets =
          (.ok placements, filled) ∧
        emitted = .value (remarksAt place (remarkLines .app window.node window.values) ++
          windowCode o filled.widgets.values placements) .anything := by
  obtain ⟨own, mid, events, runs, around, -⟩ := runs_script isOn.on isOn.known (Prod.ext run rfl)
  rw [Kind.script_app] at runs
  have inner := runs.run
  rw [Script.run, Script.run_bind] at inner
  obtain ⟨placements, filled, fills, rest⟩ := Pass.andThen_eq_ok.mp inner
  obtain ⟨rfl, -⟩ := Pass.pure_eq_ok.mp rest
  obtain ⟨rfl, -⟩ := Pass.pure_eq_ok.mp around
  exact ⟨placements, filled, fills, rfl⟩

/-- The events of the inputs of a window. -/
def windowEvents (o : Options) (window : Block) (ledger : Ledger) : List Event :=
  (windowInputs window.node).events o (window.ownSurroundings o .app)
    ⟨inputEvents o true window.values, inputEvents o false window.statements⟩ ledger.clearWidgets

section Window
variable (isOn : window.IsOn .app)
  (run : (windowInputs window.node).run o (window.ownSurroundings o .app) ledger.clearWidgets =
    (.ok placements, filled))
include isOn run

theorem asks_window_iff : Asks o (window, ledger) (child, mid) ↔ ∃ input level,
    ⟨input, level, mid⟩ ∈ (windowInputs window.node).inquiries o (window.ownSurroundings o .app)
      ledger.clearWidgets ∧ window.value? input = some child := by
  have none_later : (Kind.app.script o window.node).inquiries o (window.ownSurroundings o .app)
      ledger = (windowInputs window.node).inquiries o (window.ownSurroundings o .app)
        ledger.clearWidgets := by
    rw [Kind.script_app, Script.inquiries, Script.inquiries_bind run]
    exact List.append_nil _
  rw [asks_iff isOn, none_later]

variable (orderly : window.Orderly o ledger) (reachable : Reachable o.indent ledger)
include orderly reachable

/-- A widget that is rendered for a window is put into the column, and its constructor is added. -/
theorem Orderly.places {widget : Block} {moment : Ledger} {code : String}
    (shown : window.Renders o ledger widget moment) (made : widget.constructor? o = some code) :
    (∃ piece level, (widget.render o .value true moment).1 = .ok (.value piece level) ∧
      ∃ placement ∈ placements, Carries piece placement) ∧
    .addWidget (widgetName widget.node) code ∈ window.windowEvents o ledger := by
  obtain ⟨⟨child, mid⟩, step, path⟩ := Relation.TransGen.head'_iff.mp shown
  obtain ⟨input, level, asked, plugged⟩ := (asks_window_iff isOn run).mp step
  obtain ⟨given, passes, answers⟩ := (passesOn_windowInputs window.node).run (by simp) run
  obtain ⟨reply, _, answered, all⟩ := answers _ asked
  obtain ⟨emitted, gives, fits⟩ := exists_givesValue_of_answer plugged answered
  obtain ⟨piece, inner, text, level', rfl, left, slash, stands, added⟩ :=
    carries_of_asks path made (orderly.harmless step) (step.reachable reachable) gives
  constructor
  · obtain ⟨fitted, replied, carried, slash'⟩ := fits text level' rfl (stands.slash slash)
    obtain ⟨placement, member, placed⟩ := passes fitted (all fitted replied) slash'
    exact ⟨piece, inner, left, placement, member, (stands.trans carried).trans placed⟩
  · obtain ⟨front, back, split, -⟩ := Script.occurs_of_mem_inquiries (window.tell o _) asked
    rw [eventsIn_inputEvents plugged] at split
    change window.windowEvents o ledger = _ at split
    rw [split]
    exact List.mem_append_right front (List.mem_append_left back added)

/-- Whatever happens to the collection while the inputs of a window are rendered is that a widget
there adds its constructor. -/
theorem Orderly.adds {e : Event} (mem : e ∈ window.windowEvents o ledger)
    (about : e.isAboutWidgets = true) :
    ∃ widget moment code, window.Renders o ledger widget moment ∧
      widget.constructor? o = some code ∧ e = .addWidget (widgetName widget.node) code := by
  have passes := passesOn_windowInputs window.node
  obtain ⟨⟨input, level, mid⟩, asked, inside⟩ := passes.exists_inquiry (by simp) mem about
  obtain ⟨given, -, answers⟩ := passes.run (by simp) run
  obtain ⟨child, plugged, inside⟩ := exists_child_of_event inside
  obtain ⟨reply, _, answered, -⟩ := answers _ asked
  obtain ⟨emitted, gives, -⟩ := exists_givesValue_of_answer plugged answered
  have step := (asks_window_iff isOn run).mpr ⟨input, level, asked, plugged⟩
  obtain ⟨widget, moment, code, path, made, same⟩ := exists_widget_of_event about
    (orderly.harmless step) (step.reachable reachable) gives inside
  exact ⟨widget, moment, code, .head' step path, made, same⟩

/-- The collection of a window holds the constructors of what is rendered for it, and no others. -/
theorem Orderly.mem_widgets_iff {code : String} : code ∈ filled.widgets.values ↔
    ∃ widget moment, window.Renders o ledger widget moment ∧ widget.constructor? o = some code := by
  have steps := Script.steps_run (window.tell o (remarkLines .app window.node window.values))
    (windowInputs window.node) ledger.clearWidgets
  change Steps o.indent ledger.clearWidgets (window.windowEvents o ledger)
    ((windowInputs window.node).run o (window.ownSurroundings o .app) ledger.clearWidgets).2 at steps
  rw [run] at steps
  rw [steps.mem_widgets_iff rfl]
  have adds {e : Event} := orderly.adds isOn run reachable (e := e)
  constructor
  · rintro ⟨name, collected⟩
    obtain ⟨widget, moment, code', shown, made, same⟩ := adds collected.mem rfl
    obtain ⟨-, rfl⟩ := Event.addWidget.inj same
    exact ⟨widget, moment, shown, made⟩
  · rintro ⟨widget, moment, shown, made⟩
    refine ⟨widgetName widget.node, .of_mem (orderly.places isOn run reachable shown made).2 ?_ ?_⟩
    · intro cleared
      obtain ⟨_, _, _, -, -, same⟩ := adds cleared rfl
      cases same
    · intro other added
      obtain ⟨widget', moment', code', shown', made', same⟩ := adds added rfl
      obtain ⟨named, rfl⟩ := Event.addWidget.inj same
      exact orderly.constructor_eq shown' shown made' made named.symm

end Window

/-- A window that is rendered without an error makes what it places: the constructor of each widget
that is rendered for it stands before the column and makes the widget under its name, the code of the
widget stands in the column, and no other constructors are there. -/
theorem render_builds (isOn : window.IsOn .app) (orderly : window.Orderly o ledger)
    (reachable : Reachable o.indent ledger)
    (run : (window.render o place alone ledger).1 = .ok emitted) :
    ∃ made placements,
      emitted = .value (remarksAt place (remarkLines .app window.node window.values) ++
        windowCode o made placements) .anything ∧
      (∀ widget moment code, window.Renders o ledger widget moment →
        widget.constructor? o = some code → code ∈ made ∧
          (∃ front rest, code = Text.wholeLines front ++
            ("let " ++ widgetName widget.node ++ " = ") ++ rest) ∧
          ∃ piece level, (widget.render o .value true moment).1 = .ok (.value piece level) ∧
            ∃ placement ∈ placements, Carries piece placement) ∧
      ∀ code ∈ made, ∃ widget moment, window.Renders o ledger widget moment ∧
        widget.constructor? o = some code := by
  obtain ⟨placements, filled, fills, rfl⟩ := exists_run_of_window isOn run
  refine ⟨filled.widgets.values, placements, rfl, ?_, fun code mem => ?_⟩
  · intro widget moment code shown made
    obtain ⟨kind, -, constructs⟩ := constructor?_eq_some_iff.mp made
    exact ⟨(orderly.mem_widgets_iff isOn fills reachable).mpr ⟨widget, moment, shown, made⟩,
      Kind.makes_of_constructor constructs, (orderly.places isOn fills reachable shown made).1⟩
  · exact (orderly.mem_widgets_iff isOn fills reachable).mp mem

/-- A button with a name. -/
def buttonOf (name : String) : Block :=
  { node := { id := "b", kindName := "button", fields := [("NAME", name)] } }

/-- A block with numbered inputs. -/
def listing (id kindName items : String) (values : List (String × Block)) : Block :=
  { node := { id, kindName, mutation := { attributes := [("items", items)] } }, values }

theorem constructor?_labelOf :
    (labelOf "a").constructor? {} = some (labelConstructor {} "a") := by
  have spelled : widgetName (labelOf "a").node = "a" := by decide +kernel
  exact constructor?_eq_some_iff.mpr ⟨.label, ⟨rfl, by decide⟩, spelled ▸ rfl⟩

/-- Nothing stands in front of a block without comments. -/
theorem remarksAt_append (place : Place) {remarks : String} (quiet : remarks = "") (code : String) :
    remarksAt place remarks ++ code = code := by
  subst quiet
  cases place <;> exact String.empty_append

/-- A label and a button that are joined on their way into a window. -/
theorem render_builds_joined :
    let join := listing "j" "text_join" "2" [("ADD0", labelOf "a"), ("ADD1", buttonOf "b")]
    let window := listing "o" "app" "1" [("ADD0", join)]
    ∃ code made placements piece level,
      (window.render {} .top true {}).1 = .ok (.value code .anything) ∧
      code = windowCode {} made placements ∧ labelConstructor {} "a" ∈ made ∧
      ((labelOf "a").render {} .value true {}).1 = .ok (.value piece level) ∧
      ∃ placement ∈ placements, Carries piece placement := by
  intro join window
  have isOn : window.IsOn .app := ⟨rfl, by decide⟩
  have joins : join.IsOn .textJoin := ⟨rfl, by decide⟩
  have orderly : window.Orderly {} {} := orderly_of_walk {} (by decide) (by decide +kernel)
  have path : window.Renders {} {} (labelOf "a") {} :=
    .head (.mk isOn (.head _) rfl) (.single (.mk joins (.head _) rfl))
  have works : (window.render {} .top true {}).1.toOption.any (fun _ => true) = true := by
    decide +kernel
  obtain ⟨emitted, success, -⟩ := exists_ok_of_any works
  obtain ⟨collected, placements, rfl, builds, -⟩ :=
    render_builds isOn orderly ⟨[], .refl {}⟩ success
  obtain ⟨mem, -, piece, level, left, placed⟩ := builds _ _ _ path constructor?_labelOf
  have quiet : remarkLines .app window.node window.values = "" := by decide +kernel
  exact ⟨_, collected, placements, piece, level, success, remarksAt_append _ quiet _, mem, left,
    placed⟩

/-- A window in a window starts the collection anew, so the outer one places a label without making
it: no constructor stands before its column. -/
theorem render_forgets :
    let inner := listing "i" "app" "0" []
    let window := listing "o" "app" "2" [("ADD0", labelOf "a"), ("ADD1", inner)]
    let piece := "//  Add the label widget to the column, centered with padding\n" ++
      "col.add_child(\n  Align::centered(\n    Padding::new(5.0,\n      a\n    )\n  ),\n  1.0\n);"
    window.IsOn .app ∧ window.Renders {} {} (labelOf "a") {} ∧
      (labelOf "a").constructor? {} = some (labelConstructor {} "a") ∧
      ((labelOf "a").render {} .value true {}).1 = .ok (.value piece .anything) ∧
      ∃ code placements, (window.render {} .top true {}).1 = .ok (.value code .anything) ∧
        code = windowCode {} [] placements ∧ piece ∈ placements := by
  intro inner window piece
  have isOn : window.IsOn .app := ⟨rfl, by decide⟩
  have shown : window.Renders {} {} (labelOf "a") {} := .single (.mk isOn (.head _) rfl)
  have left : ((labelOf "a").render {} .value true {}).1 = .ok (.value piece .anything) := by
    decide +kernel
  have works : (window.render {} .top true {}).1.toOption.any (fun _ => true) = true := by
    decide +kernel
  let inputs := (windowInputs window.node).run {} (window.ownSurroundings {} .app) (clearWidgets {})
  have forgotten : inputs.2.widgets.values = [] := by decide +kernel
  have placed : inputs.1.toOption.any (fun placements => placements.head? == some piece) = true := by
    decide +kernel
  have quiet : remarkLines .app window.node window.values = "" := by decide +kernel
  obtain ⟨emitted, success, -⟩ := exists_ok_of_any works
  obtain ⟨placements, filled, fills, rfl⟩ := exists_run_of_window isOn success
  change inputs = _ at fills
  rw [fills] at forgotten placed
  rw [forgotten, remarksAt_append _ quiet] at success
  exact ⟨isOn, shown, constructor?_labelOf, left, _, placements, success, rfl,
    List.mem_of_mem_head? (eq_of_beq placed)⟩

end Block

end BlockScript
