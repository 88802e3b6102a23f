import BlockScript.Proofs.Generator.Constructors
import BlockScript.Proofs.Generator.Windows
import BlockScript.Proofs.Json.Entries
import BlockScript.Proofs.Template.ClosingSequences

/-! # Closed blocks

Blocks whose texts are quoted leave closed code. An entry with a plain key does so as well, a window
for the constructors that are collected, and a call unless it drops the quotes of an argument. So if
the code in the inputs of a block is closed, at any depth, the code of the block is closed too. -/

namespace BlockScript

open Text (Walks Spot IsIndentation isOrdinary isOrdinary_of joinLines)
open Template Script Names Json

variable {o : Options} {n : Node}

/-- The contract of closed code where constructors are collected. -/
def building (o : Options) : Contract := { closing with owes := (collecting o).owes }

/-- What a script adds to the collection does not matter to the code that it leaves. -/
theorem Script.Honours.withConstructors {α : Type} {script : Script α} {Q : α → Prop}
    (closes : script.Honours closing Q) (adds : script.AddsConstructors o) :
    script.Honours (building o) Q := by
  induction script with
  | done a => exact closes
  | fail error => exact trivial
  | value input level next ih =>
      exact fun code closed => ih code (closes code closed) (adds code fun _ _ => trivial)
  | body input next ih => exact fun code _ => ih code (closes code trivial) (adds code trivial)
  | hasBody input next ih => exact fun answer => ih answer (closes answer) (adds answer)
  | remarks next ih => exact fun text _ => ih text (closes text trivial) (adds text trivial)
  | name category raw next ih =>
      exact fun given made => ⟨trivial, fun _ =>
        ih given ((closes given made).2 trivial) ((adds given made).2 trivial)⟩
  | temporary base next ih =>
      exact fun given made => ⟨trivial, fun _ =>
        ih given ((closes given made).2 trivial) ((adds given made).2 trivial)⟩
  | helper helper next ih =>
      exact fun given made => ⟨trivial, fun _ =>
        ih given ((closes given made).2 trivial) ((adds given made).2 trivial)⟩
  | require m next ih => exact ⟨trivial, fun _ => ih (closes.2 trivial) (adds.2 trivial)⟩
  | define key code next ih => exact ⟨trivial, fun _ => ih (closes.2 trivial) (adds.2 trivial)⟩
  | clearWidgets next ih => exact ⟨trivial, fun _ => ih (closes.2 trivial) (adds.2 trivial)⟩
  | addWidget widget code next ih =>
      exact ⟨adds.1, fun _ => ih (closes.2 trivial) (adds.2 trivial)⟩
  | widgets next ih =>
      exact fun made collected => ih made (closes made fun _ _ => ⟨"", trivial⟩)
        (adds made collected)

namespace Template

/-! ### Messages and pins -/

theorem isClosed_message {entries : List String} (h : ∀ e ∈ entries, Text.IsClosed e)
    {mark : String} (blank : IsIndentation mark.toList) :
    Text.IsClosed ("coap!( @json \x7b" ++ indentedEntries entries mark ++ "\x7d)") := by
  have inner (depth : Nat) :
      Walks (Spot.code (depth + 2)) (indentedEntries entries mark) (Spot.code (depth + 2)) := by
    have joined : Walks (Spot.code (depth + 2)) (",\n".intercalate entries)
        (Spot.code (depth + 2)) := .intercalate (.start rfl rfl) fun e he => h e he (depth + 2)
    exact ((Walks.start rfl rfl).append (joined.prefixLines blank)).text rfl rfl
  exact fun depth => ((Walks.start rfl rfl).append (inner depth)).text rfl rfl

theorem coap_eq (o : Options) (n : Node) : coap o n =
    numberedValues "ADD" .anything "''" n.mutation.items >>= fun entries =>
      postfixValue ("coap!( @json \x7b" ++ indentedEntries entries o.indent ++ "\x7d)") := by
  simp only [coap, joinLines, String.intercalate_cons_cons, String.intercalate_singleton,
    indentedEntries, String.append_assoc]

theorem closes_coap (blank : IsIndentation o.indent.toList) :
    (coap o n).Honours closing Emitted.IsClosed :=
  coap_eq o n ▸ .andThen (.closedValues rfl fun _ => rfl) fun _ h => isClosed_message h blank

/-- A field leaves an entry, and its value is closed. -/
theorem closes_field : (field n).Honours closing fun emitted => ∃ value, Text.IsClosed value ∧
    emitted = .value (entry (n.fieldText "NAME") value) .anything :=
  .andThen (.closedValue rfl fun _ => rfl) fun value h => ⟨value, h, rfl⟩

theorem closes_digitalReadPin : (digitalReadPin n).Honours closing Emitted.IsClosed := by
  have pin : (pinOf n).Honours closing Text.IsClosed := by
    unfold pinOf
    split
    · exact trivial
    · next pin _ =>
        split
        · next digits =>
            simp only [Bool.and_eq_true] at digits
            exact Text.IsClosed.of_isOrdinary fun c hc =>
              isOrdinary_of_isAsciiDigit (List.all_eq_true.mp digits.2 c hc)
        · exact trivial
  exact .andThen pin fun _ h _ => ((Walks.start rfl rfl).code h).text rfl rfl

/-! ### Calls -/

theorem closes_proceduresCallReturn :
    (proceduresCallReturn n).Honours closing Emitted.IsClosed := by
  have call : (procedureCall n).Honours closing Text.IsClosed := by
    refine .andThen (.closedProcedure _) fun routine made => ?_
    refine .andThen (.closedValues rfl fun _ => rfl) fun arguments ha => ?_
    exact isClosed_callAll (isClosed_of_isIdentifier made.isIdentifier) ha
  exact .andThen call fun _ h => h

/-- A qualified name is closed. -/
theorem isClosed_qualified {name : String} (h : isIdentifier name.toList = true) :
    Text.IsClosed (qualified name) := by
  refine .of_isOrdinary fun c hc => ?_
  rw [toList_qualified] at hc
  rcases Text.mem_replaceFrom hc with colon | hc
  · simp only [List.mem_cons, List.not_mem_nil, or_false, or_self] at colon
    exact colon ▸ rfl
  · exact isOrdinary_of (p := isNameChar) rfl (((isIdentifier_iff _).mp h).2 c hc)

/-- A call that drops no quotes. -/
theorem closes_widgetsCallReturn (kept : safeName (n.fieldText "NAME") ≠ listenerName) :
    (widgetsCallReturn n).Honours closing Emitted.IsClosed := by
  have call : (widgetCall n).Honours closing fun call => Text.IsClosed call.2 := by
    refine .andThen (.closedProcedure _) fun routine made => ?_
    refine .andThen (.closedValues rfl fun _ => rfl) fun arguments ha => ?_
    have other : qualified routine ≠ "sensor::new_sensor_listener" := fun listener =>
      kept (safeName_of_listener made listener)
    have passed : passHandlers (qualified routine) arguments = arguments := if_neg other
    have code : Text.IsClosed (qualified routine ++ "(" ++
        ", ".intercalate (passHandlers (qualified routine) arguments) ++ ")") := by
      rw [passed]
      exact isClosed_callAll (isClosed_qualified made.isIdentifier) ha
    exact code
  refine .andThen call fun call h => ?_
  dsimp only
  split
  · exact fun _ => ((Walks.start rfl rfl).code h).text rfl rfl
  · exact fun depth => (h depth).text rfl rfl

/-! ### Widgets -/

theorem walks_nested (blank : IsIndentation o.indent.toList) (count : Nat) {line : String}
    {depth : Nat} {t : Spot} (h : Walks (Spot.code depth) line t) :
    Walks (Spot.code depth) (nested o count line) t :=
  Walks.append ((blank.repeated count).walk depth) h

theorem isClosed_safeName (name : String) : Text.IsClosed (safeName name) :=
  isClosed_of_isIdentifier (isIdentifier_safeName name)

theorem closes_padding : (padding n).Honours closing Text.IsClosed := by
  unfold padding
  dsimp only
  split
  · next x _ => exact isClosed_oneDecimal x
  · exact trivial

theorem closes_label (blank : IsIndentation o.indent.toList) :
    (label o n).Honours closing Emitted.IsClosed := by
  have widget := isClosed_safeName ((n.field "NAME").getD "name")
  refine .andThen closes_padding fun space hs => .anyThen fun _ => fun depth => ?_
  refine .line (.start rfl rfl) rfl ?_
  refine .line (.start rfl rfl) rfl ?_
  refine .line (walks_nested blank 1 (.start rfl rfl)) rfl ?_
  refine .line (walks_nested blank 2 (((Walks.start rfl rfl).code hs).text rfl rfl)) rfl ?_
  refine .line (walks_nested blank 3 (widget _)) rfl ?_
  refine .line (walks_nested blank 2 (.start rfl rfl)) rfl ?_
  refine .line (walks_nested blank 1 (.start rfl rfl)) rfl ?_
  refine .line (walks_nested blank 1 (.start rfl rfl)) rfl ?_
  exact .lastLine (.start rfl rfl)

theorem closes_button (blank : IsIndentation o.indent.toList) :
    (button o n).Honours closing Emitted.IsClosed := by
  have widget := isClosed_safeName ((n.field "NAME").getD "name")
  refine .andThen closes_padding fun space hs => .anyThen fun _ => fun depth => ?_
  refine .line (.start rfl rfl) rfl ?_
  refine .line (.start rfl rfl) rfl ?_
  refine .line (walks_nested blank 1 (((Walks.start rfl rfl).code hs).text rfl rfl)) rfl ?_
  refine .line (walks_nested blank 2 (widget _)) rfl ?_
  refine .line (walks_nested blank 1 (.start rfl rfl)) rfl ?_
  refine .line (walks_nested blank 1 (.start rfl rfl)) rfl ?_
  exact .lastLine (.start rfl rfl)

/-! ### Constructors and windows -/

section Constructors
variable {widget : String} (name : isIdentifier widget.toList = true)
include name

theorem newline_not_mem_of_isIdentifier : '\n' ∉ widget.toList :=
  Names.not_mem_of_isIdentifier name (by decide)

theorem isClosed_labelConstructor (blank : IsIndentation o.indent.toList) :
    Text.IsClosed (labelConstructor o widget ++ "\n") := by
  have code := isClosed_of_isIdentifier name
  have handler : Text.IsClosed ("on_" ++ widget ++ "_show") :=
    fun _ => ((Walks.start rfl rfl).code code).text rfl rfl
  have quiet := newline_not_mem_of_isIdentifier name
  have quiet' : '\n' ∉ ("on_" ++ widget ++ "_show").toList := by simp [quiet]
  have lines (depth : Nat) :
      Walks (Spot.code depth) (labelConstructor o widget) (Spot.code depth) := by
    refine .line (.start rfl rfl) rfl ?_
    refine .line (((Walks.start rfl rfl).code code).text rfl rfl) rfl ?_
    refine .line (walks_nested blank 1 (((((Walks.start rfl rfl).code handler).text rfl
      rfl).remark quiet').text rfl rfl)) rfl ?_
    refine .line ((Walks.start rfl rfl).remark quiet) rfl ?_
    exact .lastLine (((((Walks.start rfl rfl).code code).text rfl rfl).code code).text rfl rfl)
  exact fun depth => (lines depth).text rfl rfl

theorem isClosed_buttonConstructor : Text.IsClosed (buttonConstructor widget ++ "\n") := by
  have code := isClosed_of_isIdentifier name
  have handler : Text.IsClosed ("on_" ++ widget ++ "_press") :=
    fun _ => ((Walks.start rfl rfl).code code).text rfl rfl
  have quiet := newline_not_mem_of_isIdentifier name
  have quiet' : '\n' ∉ ("on_" ++ widget ++ "_press").toList := by simp [quiet]
  -- The last line ends with a comment.
  have lines (depth : Nat) :
      Walks (Spot.code depth) (buttonConstructor widget) ⟨.remark, depth⟩ := by
    refine .line ((Walks.start rfl rfl).remark quiet) rfl ?_
    exact .lastLine (((((((Walks.start rfl rfl).code code).text rfl rfl).code handler).text rfl
      rfl).remark quiet').text rfl rfl)
  exact fun depth => (lines depth).text rfl rfl

end Constructors

theorem isClosed_constructor (blank : IsIndentation o.indent.toList) {kind : Kind} {code : String}
    (widget : kind.constructor? o n = some code) : Text.IsClosed (code ++ "\n") := by
  have name : isIdentifier (widgetName n).toList = true := isIdentifier_safeName _
  rcases Kind.eq_of_constructor widget with ⟨-, rfl⟩ | ⟨-, rfl⟩
  · exact isClosed_labelConstructor name blank
  · exact isClosed_buttonConstructor name

theorem isClosed_windowCode (blank : IsIndentation o.indent.toList) {made placements : List String}
    (constructors : ∀ code ∈ made, Text.IsClosed (code ++ "\n"))
    (column : ∀ code ∈ placements, Text.IsClosed code) :
    Text.IsClosed (windowCode o made placements) := by
  have newline : Text.IsClosed "\n" := .literal rfl fun _ => rfl
  rw [windowCode, Text.joinLines_concat, Text.wholeLines_append]
  intro depth
  let inside := Spot.code (depth + 1)
  refine Walks.text (t := inside) (.append (t := inside) ?head (.indented ?body blank)) rfl rfl
  case head =>
    simp only [Text.wholeLines_cons, Text.wholeLines_nil]
    exact ((Walks.start rfl rfl).text rfl rfl).append
      (((Walks.start rfl rfl).text rfl rfl).text rfl rfl)
  case body =>
    refine Text.IsClosed.joinLines ?_ (depth + 1)
    simp only [List.mem_cons, List.not_mem_nil, or_false, forall_eq_or_imp, forall_eq]
    refine ⟨?_, Text.IsClosed.joinLines constructors, newline, ?_, ?_,
      (Text.IsClosed.intercalate newline column).append newline, ?_, ?_⟩
    all_goals exact fun _ => (Walks.start rfl rfl).text rfl rfl

theorem closes_app (blank : IsIndentation o.indent.toList) :
    (Kind.app.script o n).Honours (building o) Emitted.IsClosed := by
  have inputs : (windowInputs n).Honours (building o) fun codes =>
      ∀ code ∈ codes, Text.IsClosed code :=
    (Script.Honours.closedValues rfl fun _ => rfl).withConstructors .numberedValues
  rw [Kind.script_app]
  refine ⟨trivial, fun _ => .andThen inputs fun placements column made collected => ?_⟩
  refine isClosed_windowCode blank (fun code hc => ?_) column
  obtain ⟨-, kind, n, widget⟩ := collected code hc
  exact isClosed_constructor blank widget

/-! ### Definitions -/

theorem closes_defineRoutine (name code : String) :
    (defineRoutine name code).Honours closing Emitted.IsClosed :=
  .anyThen fun _ => .anyThen fun _ => trivial

theorem closes_proceduresDefine : (proceduresDefine o n).Honours closing Emitted.IsClosed := by
  refine .anyThen fun _ => .anyThen fun _ => .anyThen fun _ => .anyThen fun _ => ?_
  split <;> exact closes_defineRoutine _ _

theorem closes_widgetsDefine : (widgetsDefine o n).Honours closing Emitted.IsClosed := by
  unfold widgetsDefine
  -- the question, of a name that is not known yet, would be unfolded over and over
  generalize isQualified = qualified
  refine .anyThen fun _ => .anyThen fun _ => .anyThen fun _ => ?_
  dsimp only
  split
  · exact trivial
  · exact .anyThen fun _ => closes_defineRoutine _ _

end Template

/-! ### Kinds -/

/-- A block of a kind leaves closed code: no entry whose key is not plain, and no call that drops
the quotes of an argument. -/
structure Kind.Closes (kind : Kind) (n : Node) : Prop where
  plain : kind = .field → Json.IsPlain (n.fieldText "NAME")
  quoted : kind = .widgetsCallReturn → safeName (n.fieldText "NAME") ≠ listenerName

instance (kind : Kind) (n : Node) : Decidable (kind.Closes n) :=
  decidable_of_iff ((kind = .field → Json.IsPlain (n.fieldText "NAME")) ∧
    (kind = .widgetsCallReturn → safeName (n.fieldText "NAME") ≠ listenerName))
    ⟨fun ⟨plain, quoted⟩ => ⟨plain, quoted⟩, fun h => ⟨h.plain, h.quoted⟩⟩

theorem closes_statement {kind : Kind} (h : kind.leavesStatement n = true) :
    (kind.script o n).Honours closing Emitted.IsClosed :=
  .of_ensures ((Kind.leaves trivial h o).mono fun _ _ ⟨_, left⟩ => left ▸ trivial)

/-- The kinds that do not look at the collection. -/
theorem Kind.Closes.script_of_ne {kind : Kind} (closes : kind.Closes n)
    (blank : IsIndentation o.indent.toList) (other : kind ≠ .app) :
    (kind.script o n).Honours closing Emitted.IsClosed := by
  cases kind with
  | logicCompare => exact closes_logicCompare
  | logicOperation => exact closes_logicOperation
  | logicNegate => exact closes_logicNegate
  | logicBoolean => exact closes_logicBoolean
  | logicNull => exact closes_logicNull
  | logicTernary => exact closes_logicTernary
  | mathNumber => exact closes_mathNumber
  | mathArithmetic => exact closes_mathArithmetic
  | mathSingle | mathRound | mathTrig => exact closes_mathSingle
  | mathConstant => exact closes_mathConstant
  | mathNumberProperty => exact closes_mathNumberProperty
  | mathOnList => exact closes_mathOnList
  | mathModulo => exact closes_mathModulo
  | mathConstrain => exact closes_mathConstrain
  | mathRandomInt => exact closes_mathRandomInt
  | mathRandomFloat => exact closes_mathRandomFloat
  | mathAtan2 => exact closes_mathAtan2
  | text => exact Text.isClosed_quote _
  | textMultiline => exact Text.isClosed_multilineQuote _
  | textJoin => exact closes_textJoin
  | textLength => exact closes_sequenceLength .text
  | textIsEmpty => exact closes_sequenceIsEmpty .text
  | textIndexOf => exact closes_sequenceIndexOf .text
  | textCharAt => exact closes_textCharAt
  | textGetSubstring => exact closes_textGetSubstring
  | textChangeCase => exact closes_textChangeCase
  | textTrim => exact closes_textTrim
  | textPrompt | textPromptExt => exact closes_textPrompt
  | textCount => exact closes_textCount
  | textReplace => exact closes_textReplace
  | textReverse => exact closes_textReverse
  | listsCreateEmpty => exact Text.IsClosed.literal rfl fun _ => rfl
  | listsCreateWith => exact closes_listsCreateWith
  | listsRepeat => exact closes_listsRepeat
  | listsLength => exact closes_sequenceLength .list
  | listsIsEmpty => exact closes_sequenceIsEmpty .list
  | listsIndexOf => exact closes_sequenceIndexOf .list
  | listsGetIndex => exact closes_listsGetIndex
  | listsGetSublist => exact closes_listsGetSublist
  | listsSort => exact closes_listsSort
  | listsSplit => exact closes_listsSplit
  | listsReverse => exact closes_listsReverse
  | colourPicker => exact Text.isClosed_quote _
  | colourRandom => exact closes_colourRandom
  | colourRgb => exact closes_colourRgb
  | colourBlend => exact closes_colourBlend
  | variablesGet | variablesGetDynamic => exact .andThen (.closedVariable _) fun _ h => h
  | proceduresCallReturn => exact closes_proceduresCallReturn
  | coap => exact closes_coap blank
  | field =>
      refine closes_field.mono fun emitted ⟨code, closed, left⟩ => left ▸ ?_
      exact isClosed_entry (closes.plain rfl) closed
  | digitalReadPin => exact closes_digitalReadPin
  | widgetsCallReturn => exact closes_widgetsCallReturn (closes.quoted rfl)
  | label => exact closes_label blank
  | button => exact closes_button blank
  | proceduresDefReturn | proceduresDefNoReturn => exact closes_proceduresDefine
  | widgetsDefReturn | widgetsDefNoReturn => exact closes_widgetsDefine
  | app => exact absurd rfl other
  | _ => exact closes_statement rfl

theorem Kind.Closes.script {kind : Kind} (closes : kind.Closes n)
    (blank : IsIndentation o.indent.toList) :
    (kind.script o n).Honours (building o) Emitted.IsClosed := by
  by_cases window : kind = .app
  · exact window ▸ closes_app blank
  · exact (closes.script_of_ne blank window).withConstructors (kind.addsConstructors o n)

end BlockScript

namespace BlockScript

open Text (IsIndentation)
open Ledger

/-! ### Blocks -/

variable {o : Options}

/-- A block is rendered together with one around it, whose value it is a part of. -/
inductive Block.IsShown (part : Block) : Block → Prop
  | self (on : part.node.disabled = false) : IsShown part part
  | value {b child : Block} {input : String} (on : b.node.disabled = false)
      (h : (input, child) ∈ b.values) (below : IsShown part child) : IsShown part b

/-- All blocks that are rendered with a block leave closed code. -/
def Block.LeavesClosed (b : Block) : Prop :=
  ∀ part : Block, part.IsShown b → ∀ kind, Kind.ofTypeName? part.node.kindName = some kind →
    kind.Closes part.node

theorem Block.IsShown.mem_walk {part b : Block} (h : part.IsShown b) : part.node ∈ b.walk := by
  induction h with
  | self on => exact node_mem_walk _
  | value on h below ih => exact mem_walk_of_value h ih

/-- Nodes tell that all blocks that are rendered with a block leave closed code. -/
theorem Block.leavesClosed_of_walk {b : Block}
    (h : ∀ n ∈ b.walk, ∀ kind ∈ Kind.ofTypeName? n.kindName, kind.Closes n) : b.LeavesClosed :=
  fun part shown kind known => h part.node shown.mem_walk kind known

theorem closes_valueCode (child : Node) (level : Precedence) {emitted : Emitted}
    (closed : emitted.IsClosed) : (valueCode child level emitted).Honours (building o) (fun _ => [])
      fun code => ∀ text ∈ code, Text.IsClosed text := by
  cases emitted with
  | value code inner =>
      refine Pass.Honours.pure fun text ht => ?_
      split at ht
      · cases ht
      · obtain rfl := Option.some.inj ht
        exact isClosed_wrap closed inner level
  | nothing => exact Pass.Honours.pure nofun
  | statement code => exact Pass.Honours.fail trivial

theorem closes_surround {kind : Kind} {n : Node} {remarks : String} {next : Option (Pass String)}
    {record : Option (Ledger → List Event)} {emitted : Emitted} (closed : emitted.IsClosed) :
    (surround o kind n remarks next .value true emitted).Honours (building o)
      (surroundEvents true record emitted) Emitted.IsClosed := by
  cases emitted with
  | value code level =>
      have bare : remarksAt .value remarks ++ code = code := String.empty_append
      exact Pass.Honours.pure (bare ▸ closed)
  | statement code =>
      have following : (followingCode true next).Honours (building o) (fun _ => []) fun _ => True :=
        Pass.Honours.pure trivial
      exact following.andThen_quiet fun _ _ => Pass.Honours.pure trivial
  | nothing => exact Pass.Honours.pure trivial

namespace Block

/-- If the values of a block are closed, its script may rely on them. -/
theorem building_holds {b : Block} (remarks : String)
    (values : ∀ input child, (input, child) ∈ b.values →
      (child.render o .value true).Honours (building o) (child.events o true) Emitted.IsClosed) :
    (building o).Holds o (b.surroundings o remarks)
      ⟨inputEvents o true b.values, inputEvents o false b.statements⟩ := by
  have collecting := collecting_holds (o := o) remarks
    (fun _ child (_ : _ ∈ b.values) => child.addsConstructors .value true)
    (fun _ child (_ : _ ∈ b.statements) => child.addsConstructors .statement false)
  refine ⟨trivial, fun input level ledger => ?_, fun input => ?_⟩
  · simp only [eventsIn, Surroundings.valueIn, get?_inputEvents, get?_renderValues]
    cases hc : Table.get? b.values input with
    | none => exact Pass.Honours.pure (by simp) ledger
    | some child =>
        have closes := values input child (Table.mem_of_get? hc)
        exact closes.andThen_quiet (fun _ closed => closes_valueCode child.node level closed) ledger
  · exact (collecting.body input).of_contract (building o) rfl rfl rfl

/-- A block leaves closed code if all that is rendered with it does. -/
theorem LeavesClosed.render (blank : IsIndentation o.indent.toList) {b : Block}
    (closes : b.LeavesClosed) :
    (b.render o .value true).Honours (building o) (b.events o true) Emitted.IsClosed := by
  induction b with
  | mk node values statements next ihv _ _ =>
      rw [events_eq, render_eq]
      unfold renderNode nodeEvents
      by_cases off : node.disabled = true
      · simp only [if_pos off]
        exact Pass.Honours.pure trivial
      · simp only [if_neg off]
        have on := eq_false_of_ne_true off
        cases known : Kind.ofTypeName? node.kindName with
        | none => exact Pass.Honours.fail trivial
        | some kind =>
            have inputs : ∀ input child, (input, child) ∈ values →
                (child.render o .value true).Honours (building o) (child.events o true)
                  Emitted.IsClosed :=
              fun input child hi => ihv (input, child) hi fun part below =>
                closes part (.value on hi below)
            have script := (closes _ (.self on) kind known).script blank
            have run := script.run (building_holds (b := ⟨node, values, statements, next⟩)
              (remarkLines kind node values) inputs)
            exact run.andThen fun emitted closed => closes_surround closed

end Block

end BlockScript
