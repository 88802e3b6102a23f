import BlockScript.Proofs.Generator.Routines
import BlockScript.Proofs.Names.FirstCome
import BlockScript.Proofs.Template.Printing

/-! # Widgets and their handlers

A label or a button calls its handler by a name that is put together from the name of the widget,
as the user spelled it. The definition of the handler puts its name together from the name that was
given out for the same widget, and qualifies it. Where both come to the same name, the widget and
its handler are linked; otherwise the widget calls a function that need not be there. -/

namespace BlockScript

open Ledger Template
open Names (safeName)

/-- The event of a widget that its handler serves. -/
def Kind.widgetEvent? : Kind → Option String
  | .label => some "show"
  | .button => some "press"
  | _ => none

/-- A label or a button, to be shown in a window, with a name and an event to be served. -/
structure Block.IsWidget (b : Block) (name event : String) : Prop where
  on : b.node.disabled = false
  known : (Kind.ofTypeName? b.node.kindName).bind Kind.widgetEvent? = some event
  named : b.node.field "NAME" = some name

/-- A window that shows a block. -/
structure Block.Shows (app widget : Block) : Prop where
  on : app.node.disabled = false
  known : Kind.ofTypeName? app.node.kindName = some .app
  plugged : ∃ i < app.node.mutation.items, app.value? ("ADD" ++ toString i) = some widget

/-- A definition of the handler of a widget, for one of its events. -/
structure Block.Serves (b : Block) (name event : String) : Prop where
  on : b.node.disabled = false
  known : b.node.definesHandler = true
  named : b.node.field "NAME" = some name
  event : b.handlerEvent = event

/-- Code that makes a widget and hands it a function to call. -/
def Calls (function code : String) : Prop :=
  ∃ before opening after,
    opening ∈ [".with_arg(\"count\", ", " = Button::new(\"increment\", "] ∧
      code = before ++ opening ++ function ++ ");  //  Call `" ++ after

/-- Somewhere among events, a widget is made that calls a function. -/
def Registers (widget function : String) (events : List Event) : Prop :=
  ∃ code, .addWidget widget code ∈ events ∧ Calls function code

theorem Registers.mono {widget function : String} {events more : List Event}
    (h : Registers widget function events) (sub : events ⊆ more) :
    Registers widget function more := by
  obtain ⟨code, made, calls⟩ := h
  exact ⟨code, sub made, calls⟩

/-! The side of the widget. -/

/-- A line stands whole among lines that are joined. -/
theorem exists_joinLines_eq {line : String} {lines : List String} (mem : line ∈ lines) :
    ∃ before after, Text.joinLines lines = before ++ line ++ after := by
  induction lines with
  | nil => exact absurd mem List.not_mem_nil
  | cons first rest ih =>
      cases rest with
      | nil => exact ⟨"", "", by simp [Text.joinLines, List.mem_singleton.mp mem]⟩
      | cons second others =>
          rw [Text.joinLines, String.intercalate_cons_cons]
          rcases List.mem_cons.mp mem with rfl | mem
          · exact ⟨"", "\n" ++ "\n".intercalate (second :: others), by
              simp [String.append_assoc]⟩
          · obtain ⟨before, after, joined⟩ := ih mem
            rw [Text.joinLines] at joined
            exact ⟨first ++ "\n" ++ before, after, by simp [joined, String.append_assoc]⟩

theorem Calls.joinLines {function line : String} {lines : List String} (h : Calls function line)
    (mem : line ∈ lines) : Calls function (Text.joinLines lines) := by
  obtain ⟨before, opening, after, hopening, rfl⟩ := h
  obtain ⟨front, back, joined⟩ := exists_joinLines_eq mem
  refine ⟨front ++ before, opening, after ++ back, hopening, ?_⟩
  simp only [joined, String.append_assoc]

theorem calls_labelConstructor (o : Options) (widget : String) :
    Calls (callbackName widget "show") (labelConstructor o widget) := by
  have literal : "_show" = "_" ++ "show" := by decide
  let handler := "on_" ++ widget ++ "_show"
  have line : Calls (callbackName widget "show") (nested o 1 (".with_arg(\"count\", " ++ handler ++
      ");  //  Call `" ++ handler ++ "` to get label text")) := by
    refine ⟨Text.repeated o.indent 1, ".with_arg(\"count\", ", handler ++ "` to get label text",
      by simp, ?_⟩
    simp only [nested, handler, callbackName, literal, String.append_assoc]
  exact line.joinLines (by simp [handler])

theorem calls_buttonConstructor (widget : String) :
    Calls (callbackName widget "press") (buttonConstructor widget) := by
  have literal : "_press" = "_" ++ "press" := by decide
  let handler := "on_" ++ widget ++ "_press"
  have line : Calls (callbackName widget "press") ("let " ++ widget ++
      " = Button::new(\"increment\", " ++ handler ++ ");  //  Call `" ++ handler ++
        "` when pressed") := by
    refine ⟨"let " ++ widget, " = Button::new(\"increment\", ", handler ++ "` when pressed",
      by simp, ?_⟩
    simp only [handler, callbackName, literal, String.append_assoc]
  exact line.joinLines (by simp [handler])

/-- The script of a widget registers it. -/
theorem Kind.ensures_widget {kind : Kind} {n : Node} {name event : String}
    (widget : kind.widgetEvent? = some event) (named : n.field "NAME" = some name) (o : Options) :
    (kind.script o n).Ensures .any fun _ es =>
      Registers (safeName name) (callbackName (safeName name) event) es := by
  have spelled : widgetName n = safeName name := by rw [widgetName, named, Option.getD_some]
  have grows {function : String} {es more : List Event}
      (h : Registers (safeName name) function es) :
      Registers (safeName name) function (more ++ es) :=
    h.mono (List.subset_append_right more es)
  cases kind with
  | label =>
      obtain rfl := Option.some.inj widget
      refine Script.Ensures.after trivial (fun _ => grows) fun space => ?_
      rw [spelled]
      exact ⟨_, List.mem_singleton_self _, calls_labelConstructor o _⟩
  | button =>
      obtain rfl := Option.some.inj widget
      refine Script.Ensures.after trivial (fun _ => grows) fun space => ?_
      rw [spelled]
      exact ⟨_, List.mem_singleton_self _, calls_buttonConstructor _⟩
  | _ => exact nomatch widget

/-- A widget that is rendered without an error is registered. -/
theorem Block.IsWidget.gives {b : Block} {name event : String} (h : b.IsWidget name event)
    (o : Options) (place : Place) (alone : Bool) :
    (b.render o place alone).Gives (b.events o alone) True fun _ es =>
      Registers (safeName name) (callbackName (safeName name) event) es := by
  obtain ⟨kind, known, widget⟩ := Option.bind_eq_some_iff.mp h.known
  refine Block.gives_render h.on known (fun _ => Replies.any_hold o _ _)
    (Kind.ensures_widget widget h.named o) ?_
  intro remarks emitted es registered
  refine (Pass.Gives.trivial trivial _ _).mono fun whole more _ => ?_
  exact registered.mono (List.subset_append_left es more)

/-- The replies where the events in one value input are known. -/
def Replies.ofInput (input : String) (E : List Event → Prop) : Replies where
  value := fun asked _ _ events => asked = input → E events
  body := fun _ _ _ => True
  plugged := fun _ _ => True
  mayFail := True

theorem Replies.ofInput_hold {b child : Block} {input remarks : String} {E : List Event → Prop}
    {o : Options} (plugged : b.value? input = some child)
    (h : (child.render o .value true).Gives (child.events o true) True fun _ es => E es) :
    (Replies.ofInput input E).Hold o
      ⟨remarks, Block.renderValues o b.values, Block.renderStatements o b.statements⟩
      ⟨Block.inputEvents o true b.values, Block.inputEvents o false b.statements⟩ := by
  refine ⟨fun asked level => ?_, fun _ _ => Pass.Gives.trivial trivial _ _, fun _ => trivial⟩
  refine Block.gives_valueIn ?_ ?_
  · rintro missing rfl
    exact absurd (missing.symm.trans plugged) (by simp)
  · intro other found
    by_cases same : asked = input
    · subst same
      obtain rfl := Option.some.inj (plugged.symm.trans found)
      refine h.mono fun emitted es known => ?_
      cases emitted with
      | value code inner => exact fun _ => known
      | statement code => exact trivial
      | nothing => exact fun _ => known
    · refine (Pass.Gives.trivial trivial _ _).mono fun emitted es _ => ?_
      cases emitted with
      | value code inner => exact fun h => absurd h same
      | statement code => exact trivial
      | nothing => exact fun h => absurd h same

/-- The script of a window asks for all its inputs. -/
theorem ensures_app {n : Node} {i : Nat} {E : List Event → Prop} (o : Options)
    (shown : i < n.mutation.items) (grows : ∀ {es more}, E es → es ⊆ more → E more) :
    (app o n).Ensures (.ofInput ("ADD" ++ toString i) E) fun _ es => E es := by
  refine Script.Ensures.bind ?_
  refine Script.Ensures.bind ((Script.Ensures.mapM (P := fun j _ es => j = i → E es) ?_).mono ?_)
  · rintro j - code events reply rfl
    rw [List.append_nil]
    exact reply rfl
  · intro placements es each made
    obtain ⟨placement, -, own, sub, known⟩ := each i (List.mem_range.mpr shown)
    exact grows (known rfl) fun e he =>
      List.mem_append_right _ (List.mem_append_left _ (sub he))

/-- A window that is rendered without an error registers the widgets that it shows. -/
theorem Block.Shows.gives {app widget : Block} {name event : String} (h : app.Shows widget)
    (isWidget : widget.IsWidget name event) (o : Options) (place : Place) (alone : Bool) :
    (app.render o place alone).Gives (app.events o alone) True fun _ es =>
      Registers (safeName name) (callbackName (safeName name) event) es := by
  obtain ⟨i, shown, plugged⟩ := h.plugged
  refine Block.gives_render h.on h.known
    (fun _ => Replies.ofInput_hold plugged (isWidget.gives o .value true))
    (ensures_app o shown Registers.mono) ?_
  intro remarks emitted es registered
  refine (Pass.Gives.trivial trivial _ _).mono fun whole more _ => ?_
  exact registered.mono (List.subset_append_left es more)

/-! The side of the handler. -/

theorem Block.Serves.defines {b : Block} {name event : String} (h : b.Serves name event) :
    b.node.Defines := by
  have handler := h.known
  unfold Node.definesHandler at handler
  cases known : Kind.ofTypeName? b.node.kindName with
  | none => simp [known] at handler
  | some kind =>
      simp only [known, Option.any_some] at handler
      cases kind with
      | widgetsDefReturn => exact ⟨h.on, _, known, rfl⟩
      | widgetsDefNoReturn => exact ⟨h.on, _, known, rfl⟩
      | _ => exact Bool.noConfusion handler

theorem Block.Serves.functionName_eq {b : Block} {name event given : String} {names : Names}
    (h : b.Serves name event) (known : names.lookup .procedureName name = some given) :
    b.functionName names = handlerName given event := by
  have field : b.node.fieldText "NAME" = name := by rw [Node.fieldText, h.named, Option.getD_some]
  rw [Block.functionName_eq (field ▸ known), routineName, if_pos h.known, h.event]

/-- Without an error, a widget calls a function of the name `on_<name>_<event>`, as it is shown in a
window, and the definition of its handler defines one. Both are the same exactly if the name is not
reserved, nothing else has it, and no underscore is at its border; then the function is in the
program. -/
theorem generate_links (g : Generator) (w : Workspace) {app widget definition : Block}
    {name event : String} (shows : app.Shows widget) (isWidget : widget.IsWidget name event)
    (top : definition ∈ w.orderedBlocks) (serves : definition.Serves name event)
    (plain : Text.holdsText ['_', '_'] (safeName name).toList = false)
    {program : Program} (success : (g.generate w).1 = .ok program)
    (clean : program.errors = []) :
    let names := (g.generate w).2.ledger.names
    let called := callbackName (safeName name) event
    let defined := definition.functionName names
    (∀ place alone ledger emitted after,
      app.render g.options place alone ledger = (.ok emitted, after) →
        Registers (safeName name) called (app.events g.options alone ledger)) ∧
    (∃ ledger first rest,
      (definition, ledger) ∈ passVisits g.options w.orderedBlocks
        (Ledger.declareNames {} w.walk) ∧
      definition.events g.options false ledger = first ++ rest ∧ Finishes defined rest) ∧
    (defined = called ↔ safeName name ∉ reservedWords ∧
      (∀ category raw, names.lookup category raw = some (safeName name) →
        category = .procedureName ∧ raw = name) ∧
      (safeName name).toList.head? ≠ some '_' ∧ (safeName name).toList.getLast? ≠ some '_') ∧
    (defined = called → definitionKey called ∈ Table.keys program.definitions) := by
  obtain ⟨harvest, final, run, rfl, hfinal⟩ := g.generate_eq_ok success
  rw [hfinal]
  intro names called defined
  let start := Ledger.declareNames {} w.walk
  let events := passEvents g.options w.orderedBlocks start
  have reachable : Reachable g.options.indent start :=
    reachable_declareNames g.options.indent w.walk
  have steps : Steps g.options.indent start events final := steps_renderAll run
  have coherent : Coherent events final := reachable.coherent.steps steps
  have spelled : Names.isIdentifier (safeName name).toList = true :=
    Names.isIdentifier_safeName name
  have served : event = "show" ∨ event = "press" := serves.event ▸ definition.handlerEvent_cases
  have written : definition.node ∈ w.walk := by
    refine List.mem_flatMap.mpr ⟨definition, top, ?_⟩
    rw [Block.walk_eq]
    exact List.mem_cons_self
  obtain ⟨-, kind, known, defines⟩ := serves.defines
  obtain ⟨given, first⟩ := exists_lookup_declareNames written known defines serves.named
  have last : names.lookup .procedureName name = some given :=
    steps.keeps (fun step holds => step.keeps_lookup holds) first
  have isDefined : defined = handlerName given event := serves.functionName_eq last
  obtain ⟨ledger, given', before, rest, hv, split, asked, ending⟩ :=
    exists_visit_of_defines top serves.defines reachable run clean
  have own : defined = definition.routineName given' :=
    Block.functionName_eq (coherent.named asked)
  have finishes : Finishes defined rest := own ▸ ending
  refine ⟨?called, ⟨ledger, before, rest, hv, split, finishes⟩, ?same, ?present⟩
  case called =>
    intro place alone ledger emitted after rendered
    have gives := shows.gives isWidget g.options place alone ledger
    rwa [rendered] at gives
  case same =>
    rw [isDefined, handlerName_eq_callbackName_iff (coherent.spelled (.entry last)) spelled served
      plain, eq_safeName_iff (settled_declareNames w.walk) steps coherent first, and_assoc]
  case present =>
    intro same
    rw [← same]
    cases finishes with
    | served qualified =>
        rw [same, isQualified_of_isIdentifier (isIdentifier_callbackName spelled served)]
          at qualified
        exact Bool.noConfusion qualified
    | @defined arguments code _ _ _ =>
        have define : .define (definitionKey defined) code ∈
            definition.events g.options false ledger := by
          rw [split]
          exact List.mem_append_right before
            (List.mem_append_right arguments (List.mem_singleton_self _))
        exact steps.mem_keys_of_define (mem_passEvents_of_visit hv define)

/-- A label with a name. -/
def labelOf (name : String) : Block :=
  { node := { id := "l", kindName := "label", fields := [("NAME", name)] } }

/-- What a window with room for one widget shows itself. -/
def windowNode : Node :=
  { id := "a", kindName := "app", mutation := { attributes := [("items", "1")] } }

/-- A window that shows one widget. -/
def windowOf (widget : Block) : Block := { node := windowNode, values := [("ADD0", widget)] }

/-- The definition of the handler of a label that shows a variable. -/
def showVariable (name shown : String) : Block :=
  { node := { id := "h", kindName := "widgets_defreturn", fields := [("NAME", name)] },
    values := [("RETURN",
      { node := { id := "v", kindName := "variables_get", fields := [("VAR", shown)] } })] }

theorem windowOf_shows (widget : Block) : (windowOf widget).Shows widget := by
  have known : Kind.ofTypeName? windowNode.kindName = some .app := by decide
  have room : 0 < windowNode.mutation.items := by decide
  exact ⟨rfl, known, 0, room, rfl⟩

theorem labelOf_isWidget (name : String) : (labelOf name).IsWidget name "show" := by
  have known : (Kind.ofTypeName? "label").bind Kind.widgetEvent? = some "show" := by decide
  exact ⟨rfl, known, rfl⟩

theorem showVariable_serves (name shown : String) :
    (showVariable name shown).Serves name "show" := by
  have known : (Kind.ofTypeName? "widgets_defreturn").any Kind.definesHandler = true := by decide
  have leaves : (Kind.ofTypeName? "variables_get").any (fun kind => !kind.isProcedureDefinition) =
      true := by
    decide
  refine ⟨rfl, known, rfl, if_pos ?_⟩
  simp [showVariable, Block.value?, Table.get?, Node.leavesCode, leaves]

/-- A label and the definition of its handler. -/
def labelled (name shown : String) : Workspace :=
  { blocks := [windowOf (labelOf name), showVariable name shown] }

theorem showVariable_mem (name shown : String) :
    showVariable name shown ∈ (labelled name shown).orderedBlocks :=
  (Workspace.inOrder_perm _).mem_iff.mpr (by simp [labelled])

/-- A label and its handler are linked if the variable that the handler shows has another name. -/
theorem generate_links_total :
    let w := labelled "counter" "total"
    ∃ program, (({ options := {} } : Generator).generate w).1 = .ok program ∧
      program.errors = [] ∧
      (∀ place alone ledger emitted after,
        (windowOf (labelOf "counter")).render {} place alone ledger = (.ok emitted, after) →
          Registers "counter" "on_counter_show"
            ((windowOf (labelOf "counter")).events {} alone ledger)) ∧
      "%on_counter_show" ∈ Table.keys program.definitions := by
  intro w
  let g : Generator := { options := {} }
  have run : (g.generate w).1.toOption.any (fun p => p.errors.isEmpty) = true := by
    decide +kernel
  obtain ⟨program, success, clean⟩ := exists_ok_of_any run
  obtain ⟨registers, -, -, present⟩ := generate_links g w (windowOf_shows (labelOf "counter"))
    (labelOf_isWidget "counter") (showVariable_mem "counter" "total")
    (showVariable_serves "counter" "total") (by decide +kernel) success (List.isEmpty_iff.mp clean)
  have same : (showVariable "counter" "total").functionName (g.generate w).2.ledger.names =
      callbackName (safeName "counter") "show" := by
    decide +kernel
  have spelled : safeName "counter" = "counter" := by decide +kernel
  have called : callbackName "counter" "show" = "on_counter_show" := by decide +kernel
  rw [spelled, called] at registers
  refine ⟨program, success, List.isEmpty_iff.mp clean, registers, ?_⟩
  have found := present same
  rwa [spelled, called] at found

/-- They are not if the variable has the name of the label: it comes first, so the handler gets
another one. -/
theorem generate_unlinked :
    let definition := showVariable "counter" "counter"
    let w := labelled "counter" "counter"
    (windowOf (labelOf "counter")).Shows (labelOf "counter") ∧
      (labelOf "counter").IsWidget "counter" "show" ∧ definition.Serves "counter" "show" ∧
      definition ∈ w.orderedBlocks ∧ Text.holdsText ['_', '_'] (safeName "counter").toList = false ∧
      ∃ program, generate {} w = .ok program ∧ program.errors = [] ∧
        (∀ place alone ledger emitted after,
          (windowOf (labelOf "counter")).render {} place alone ledger = (.ok emitted, after) →
            Registers "counter" "on_counter_show"
              ((windowOf (labelOf "counter")).events {} alone ledger)) ∧
        Table.keys program.definitions = ["variables", "%on_counter2_show"] := by
  intro definition w
  have run : (generate {} w).toOption.any (fun p =>
      p.errors.isEmpty && p.definitions.keys == ["variables", "%on_counter2_show"]) = true := by
    decide +kernel
  obtain ⟨program, success, checked⟩ := exists_ok_of_any run
  obtain ⟨clean, keys⟩ := Bool.and_eq_true_iff.mp checked
  have spelled : safeName "counter" = "counter" := by decide +kernel
  have called : callbackName "counter" "show" = "on_counter_show" := by decide +kernel
  refine ⟨windowOf_shows _, labelOf_isWidget "counter", showVariable_serves "counter" "counter",
    showVariable_mem "counter" "counter", by decide +kernel, program, success,
    List.isEmpty_iff.mp clean, fun place alone ledger emitted after rendered => ?_,
    eq_of_beq keys⟩
  have gives := (windowOf_shows _).gives (labelOf_isWidget "counter") {} place alone ledger
  rwa [rendered, spelled, called] at gives

end BlockScript
