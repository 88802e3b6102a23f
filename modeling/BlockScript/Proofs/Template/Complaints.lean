import BlockScript.Proofs.Rendering.Ends
import BlockScript.Template

/-! # What blocks complain about

The script of a block fails for a reason of its own, a field whose value it cannot use, and the
error names the block and quotes the field. If it does not fail, a definition leaves nothing at its
place, and every other block leaves code there. -/

namespace BlockScript

open Script Template Number

/-- A block complains about one of its fields: about its value, or that it is missing. -/
inductive Node.Complaint (n : Node) : GenerateError → Prop
  | option (field : String) : Complaint n (n.unknownOption field (n.field field))
  | number {field raw : String} (h : n.field field = some raw) :
      Complaint n (.invalidNumber n.id raw)

namespace Node.Complaint
variable {n : Node} {e : GenerateError}

theorem missing {field : String} (h : n.field field = none) :
    n.Complaint (n.unknownOption field none) :=
  h ▸ .option field

theorem unknown {field value : String} (h : n.field field = some value) :
    n.Complaint (n.unknownOption field (some value)) :=
  h ▸ .option field

theorem blockId_eq (h : n.Complaint e) : e.blockId = n.id := by
  cases h <;> rfl

theorem kindName_eq (h : n.Complaint e) : ∀ kindName ∈ e.kindName?, kindName = n.kindName := by
  cases h with
  | option field => exact fun kindName hk => (Option.some.inj hk).symm
  | number h => exact nofun

end Node.Complaint

/-- The script leaves code, or it ends with a complaint of the block. -/
abbrev Script.Yields (n : Node) (s : Script Emitted) : Prop := s.Ends n.Complaint (· ≠ .nothing)

namespace Template
variable {n : Node}

/-! Fields. -/

section Failures
variable {α : Type} {Q : α → Prop} {field : String}

theorem ends_missing (h : n.field field = none) :
    (fail (n.unknownOption field none) : Script α).Ends n.Complaint Q :=
  ends_fail.mpr (.missing h)

theorem ends_unknown {value : String} (h : n.field field = some value) :
    (fail (n.unknownOption field (some value)) : Script α).Ends n.Complaint Q :=
  ends_fail.mpr (.unknown h)

theorem ends_notANumber {raw : String} (h : n.field field = some raw) :
    (fail (.invalidNumber n.id raw) : Script α).Ends n.Complaint Q :=
  ends_fail.mpr (.number h)

/-- A text that is no number stands in the field, if the default is one. -/
theorem ends_unreadable {β : Type} {f : String → Option β} {default : String}
    (reads : f default ≠ none) (h : f ((n.field field).getD default) = none) :
    (fail (.invalidNumber n.id ((n.field field).getD default)) : Script α).Ends n.Complaint Q := by
  cases hf : n.field field with
  | none =>
      rw [hf] at h
      exact absurd h reads
  | some raw => exact ends_notANumber hf

end Failures

@[simp] theorem ends_requiredField {field : String} {Q : String → Prop} :
    (n.requiredField field).Ends n.Complaint Q ↔
      ∀ value, n.field field = some value → Q value := by
  unfold Node.requiredField
  cases h : n.field field with
  | some value => simp
  | none => simp [Node.Complaint.missing h]

/-- The name of a position stands for it alone. -/
theorem Position.name_of_ofName? {given : String} {position : Position}
    (h : Position.ofName? given = some position) : position.name = given := by
  unfold ofName? at h
  split at h <;> simp_all [name] <;> subst h <;> rfl

/-- The field of a position holds its name, or there is no such field and it is the default. -/
theorem ends_positionOr {field : String} {default : Option Position} {Q : Position → Prop}
    (given : ∀ p, n.field field = some p.name → Q p) (other : ∀ p, default = some p → Q p) :
    (positionOr n field default).Ends n.Complaint Q := by
  unfold positionOr
  split
  · exact ends_done.mpr (other _ rfl)
  · next h => exact ends_missing h
  · next value default h =>
      split
      · next position hp => exact ends_done.mpr (given position (Position.name_of_ofName? hp ▸ h))
      · exact ends_unknown h

@[simp] theorem ends_adjustedIndex {o : Options} {input : String} {delta : Int}
    {required : Precedence} {Q : String → Prop} {E : GenerateError → Prop}
    (h : ∀ code, Q code) : (adjustedIndex o input delta required).Ends E Q := by
  simp [adjustedIndex, h]

/-! Operators. -/

theorem yields_binary (operator : String) (level : Precedence) :
    (binary operator level).Yields n := by
  simp [binary]

theorem numeral_ne_nothing (x : Binary64) : numeral x ≠ .nothing := by
  unfold numeral
  repeat' split
  all_goals simp

theorem yields_mathNumber : (mathNumber n).Yields n := by
  unfold mathNumber
  dsimp only
  split
  · next x _ => exact ends_done.mpr (numeral_ne_nothing x)
  · next h => exact ends_unreadable (f := readField) (by decide +kernel) h

theorem yields_power : power.Yields n := by
  simp [power]

theorem yields_mathArithmetic : (mathArithmetic n).Yields n := by
  simp only [mathArithmetic, Script.Yields, ends_bind, ends_requiredField]
  intro op h
  split
  · exact yields_binary _ _
  · split
    · exact yields_power
    · exact ends_unknown h

theorem yields_logicCompare : (logicCompare n).Yields n := by
  simp only [logicCompare, Script.Yields, ends_bind, ends_requiredField]
  intro op h
  split
  · exact yields_binary _ _
  · exact ends_unknown h

theorem yields_logicOperation : (logicOperation n).Yields n := by
  simp only [logicOperation, Script.Yields, ends_bind, ends_requiredField]
  intro op h
  split
  · exact ends_unknown h
  · simp only [ends_bind, ends_value?]
    intro a b
    split <;> simp

theorem yields_logicBoolean : (logicBoolean n).Yields n := by
  simp only [logicBoolean, Script.Yields, ends_bind, ends_requiredField]
  intro value h
  split
  · simp
  · simp
  · exact ends_unknown h

theorem yields_test (property : Property) : property.test.Yields n := by
  unfold Property.test
  split
  · simp only [Script.Yields, ends_bind, ends_value?]
    intro number
    cases number <;> simp [falseLiteral]
  · simp only [Script.Yields, ends_bind, ends_value?]
    intro number
    cases number with
    | none => simp [falseLiteral]
    | some number =>
        cases property with
        | prime | divisible =>
            simp only [ends_bind, ends_value?]
            intro divisor
            cases divisor <;> simp [falseLiteral, remainderIs]
        | even | odd | whole | positive | negative => simp [remainderIs]

theorem yields_mathNumberProperty : (mathNumberProperty n).Yields n := by
  simp only [mathNumberProperty, Script.Yields, ends_bind, ends_requiredField]
  intro name h
  split
  · exact ends_unknown h
  · exact yields_test _

/-! Functions. -/

theorem yields_negation : negation.Yields n := by
  simp [negation]

theorem yields_mathSingle : (mathSingle n).Yields n := by
  simp only [mathSingle, Script.Yields, ends_bind, ends_requiredField]
  intro op h
  split
  · exact yields_negation
  · split
    · exact ends_unknown h
    · simp

theorem yields_mathConstant : (mathConstant n).Yields n := by
  simp only [mathConstant, Script.Yields, ends_bind, ends_requiredField]
  intro name h
  split
  · simp
  · split
    · exact ends_unknown h
    · simp

theorem yields_mathOnList : (mathOnList n).Yields n := by
  simp only [mathOnList, Script.Yields, ends_bind, ends_requiredField]
  intro op h
  split
  · exact ends_unknown h
  · simp only [ends_bind, ends_valueOr]
    intro list
    split <;> simp

/-! Lists and texts. -/

theorem yields_listsSort : (listsSort n).Yields n := by
  simp only [listsSort, Script.Yields, ends_bind, ends_requiredField]
  intro sortOrder h
  split
  · simp
  · exact ends_unknown h

theorem yields_listsSplit : (listsSplit n).Yields n := by
  simp only [listsSplit, Script.Yields, ends_bind, ends_requiredField]
  intro mode h
  split
  · exact ends_unknown h
  · simp

theorem yields_textJoin : (textJoin n).Yields n := by
  unfold textJoin
  split
  · simp
  · simp
  · simp [ends_numberedValues]

theorem yields_textMethod (call : String) : (textMethod call).Yields n := by
  simp [textMethod]

theorem yields_textChangeCase : (textChangeCase n).Yields n := by
  simp only [textChangeCase, Script.Yields, ends_bind, ends_requiredField]
  intro letters h
  split
  · exact yields_textMethod _
  · exact yields_textMethod _
  · simp
  · exact ends_unknown h

theorem yields_textTrim : (textTrim n).Yields n := by
  simp only [textTrim, Script.Yields, ends_bind, ends_requiredField]
  intro side h
  split
  · exact yields_textMethod _
  · exact yields_textMethod _
  · exact yields_textMethod _
  · exact ends_unknown h

theorem ends_asksForNumber {Q : Bool → Prop} (all : ∀ answer, Q answer) :
    (asksForNumber n).Ends n.Complaint Q := by
  unfold asksForNumber
  split
  · exact ends_done.mpr (all false)
  · exact ends_done.mpr (all false)
  · exact ends_done.mpr (all true)
  · next other h => exact ends_unknown h

theorem ends_promptMessage {E : GenerateError → Prop} {Q : String → Prop} (all : ∀ code, Q code) :
    (promptMessage n).Ends E Q := by
  unfold promptMessage
  split
  · exact ends_done.mpr (all _)
  · exact ends_valueOr.mpr all

theorem yields_textPrompt : (textPrompt n).Yields n := by
  simp only [textPrompt, Script.Yields, ends_bind, ends_requireModule]
  refine ends_asksForNumber fun isNumber => ends_promptMessage fun message => ?_
  split <;> simp

/-! Slices. -/

theorem yields_sequenceIndexOf (kind : SequenceKind) (o : Options) :
    (sequenceIndexOf kind o n).Yields n := by
  simp only [sequenceIndexOf, Script.Yields, ends_bind, ends_requiredField]
  intro fromSide h
  split
  · exact ends_unknown h
  · simp only [ends_bind, ends_valueOr]
    intro item sequence
    split <;> simp

theorem ends_positionWith {field : String} {position : Position} {holds : Bool} {Q : Unit → Prop}
    (h : n.field field = some position.name) (all : Q ()) :
    (positionWith n field position holds).Ends n.Complaint Q := by
  unfold positionWith
  split
  · exact ends_done.mpr all
  · exact ends_unknown h

theorem ends_sliceEnds {Q : Position × Position → Prop} (all : ∀ ends, Q ends) :
    (sliceEnds n).Ends n.Complaint Q := by
  simp only [sliceEnds, ends_bind]
  refine ends_positionOr (fun start hstart => ?_) (by simp)
  refine ends_positionOr (fun stop hstop => ?_) (by simp)
  exact ends_positionWith hstart (ends_positionWith hstop (ends_done.mpr (all _)))

theorem ends_sliceStart {o : Options} {sequence : String} {position : Position}
    {E : GenerateError → Prop} {Q : String → Prop} (all : ∀ code, Q code) :
    (sliceStart o sequence position).Ends E Q := by
  unfold sliceStart
  split <;> simp [all]

theorem yields_directSlice (kind : SequenceKind) (o : Options) (sequence : String)
    (start stop : Position) : (directSlice kind o sequence start stop).Yields n := by
  simp only [directSlice, Script.Yields, ends_bind]
  refine ends_sliceStart fun at1 => ?_
  split <;> simp

theorem yields_helperSlice (kind : SequenceKind) (o : Options) (sequence : String)
    (start stop : Position) : (helperSlice kind o sequence start stop).Yields n := by
  simp [helperSlice]

theorem yields_sliceOf (kind : SequenceKind) (o : Options) (sequence : String)
    (start stop : Position) : (sliceOf kind o sequence start stop).Yields n := by
  unfold sliceOf
  split
  · exact yields_directSlice kind o sequence start stop
  · exact yields_helperSlice kind o sequence start stop

theorem yields_listsGetSublist (o : Options) : (listsGetSublist o n).Yields n := by
  simp only [listsGetSublist, Script.Yields, ends_bind, ends_valueOr]
  exact ends_sliceEnds fun ends list => yields_sliceOf ..

theorem yields_textGetSubstring (o : Options) : (textGetSubstring o n).Yields n := by
  simp only [textGetSubstring, Script.Yields, ends_bind, ends_valueOr]
  refine ends_sliceEnds fun ends text => ?_
  split
  · simp
  · exact yields_sliceOf ..

/-! Elements. -/

theorem ends_readMode {Q : ReadMode → Prop} (all : ∀ mode, Q mode) :
    (readMode n).Ends n.Complaint Q := by
  unfold readMode
  split
  · exact ends_done.mpr (all .keep)
  · exact ends_done.mpr (all .keep)
  · exact ends_done.mpr (all .take)
  · exact ends_done.mpr (all .drop)
  · next other h => exact ends_unknown h

theorem ends_writeMode {Q : WriteMode → Prop} (all : ∀ mode, Q mode) :
    (writeMode n).Ends n.Complaint Q := by
  unfold writeMode
  split
  · exact ends_done.mpr (all .replace)
  · exact ends_done.mpr (all .replace)
  · exact ends_done.mpr (all .shift)
  · next other h => exact ends_unknown h

theorem ends_position {Q : Position → Prop} (field : String) (default : Option Position)
    (all : ∀ position, Q position) : (positionOr n field default).Ends n.Complaint Q :=
  ends_positionOr (fun position _ => all position) fun position _ => all position

theorem yields_emit (mode : ReadMode) (kept taken : String) : (mode.emit kept taken).Yields n := by
  cases mode <;> simp [ReadMode.emit]

theorem yields_readHoisted (o : Options) (mode : ReadMode) (position : Position) (list : String) :
    (readHoisted o mode position list).Yields n := by
  unfold readHoisted
  split
  · simp [dropRandom]
  · cases mode <;> simp [readBound]

theorem yields_readDirect (o : Options) (mode : ReadMode) (list : String) (position : Position) :
    (readDirect o mode list position).Yields n := by
  cases position with
  | first | last => exact yields_emit ..
  | fromStart | fromEnd => simpa [readDirect] using ends_adjustedIndex fun at1 => yields_emit ..
  | random => cases mode <;> simp [readDirect, dropRandom]

theorem yields_listsGetIndex (o : Options) : (listsGetIndex o n).Yields n := by
  simp only [listsGetIndex, Script.Yields, ends_bind, ends_valueOr]
  refine ends_readMode fun mode => ends_position _ _ fun position list => ?_
  split
  · exact yields_readHoisted ..
  · exact yields_readDirect ..

theorem ends_bindUnlessBare {list : String} {E : GenerateError → Prop}
    {Q : String × String → Prop} (all : ∀ bound, Q bound) : (bindUnlessBare list).Ends E Q := by
  unfold bindUnlessBare
  split <;> simp [all]

theorem ends_writeElement {o : Options} {mode : WriteMode} {list value : String}
    {position : Position} {E : GenerateError → Prop} {Q : String → Prop} (all : ∀ code, Q code) :
    (writeElement o mode list value position).Ends E Q := by
  cases position with
  | first => exact ends_done.mpr (all _)
  | last =>
      cases mode with
      | replace => simp [writeElement, ends_bindUnlessBare, all]
      | shift => exact ends_done.mpr (all _)
  | fromStart | fromEnd | random => simp [writeElement, ends_bindUnlessBare, all]

theorem yields_listsSetIndex (o : Options) : (listsSetIndex o n).Yields n := by
  simp only [listsSetIndex, Script.Yields, ends_bind, ends_valueOr]
  refine ends_writeMode fun mode => ends_position _ _ fun position list value => ?_
  exact ends_writeElement fun code => by simp

theorem yields_textCharAt (o : Options) : (textCharAt o n).Yields n := by
  simp only [textCharAt, Script.Yields, ends_bind, ends_valueOr]
  refine ends_position _ _ fun position text => ?_
  cases position <;> simp [letterFromEnd]

/-! Pins and widgets. -/

theorem ends_pinOf {Q : String → Prop} (all : ∀ pin, Q pin) : (pinOf n).Ends n.Complaint Q := by
  unfold pinOf
  split
  · next h => exact ends_missing h
  · next pin h =>
      split
      · exact ends_done.mpr (all pin)
      · exact ends_unknown h

theorem ends_pinLevel {Q : String → Prop} (all : ∀ level, Q level) :
    (pinLevel n).Ends n.Complaint Q := by
  unfold pinLevel
  split
  · exact ends_done.mpr (all "0")
  · exact ends_done.mpr (all "1")
  · exact ends_fail.mpr (.option "VALUE")

theorem yields_digitalTogglePin : (digitalTogglePin n).Yields n := by
  simp [digitalTogglePin, ends_pinOf]

theorem yields_digitalReadPin : (digitalReadPin n).Yields n := by
  simp [digitalReadPin, ends_pinOf]

theorem yields_digitalWritePin : (digitalWritePin n).Yields n := by
  simp [digitalWritePin, ends_pinOf, ends_pinLevel]

theorem ends_padding {Q : String → Prop} (all : ∀ space, Q space) :
    (padding n).Ends n.Complaint Q := by
  unfold padding
  dsimp only
  split
  · exact ends_done.mpr (all _)
  · next h => exact ends_unreadable (f := readField) (by decide +kernel) h

theorem yields_label (o : Options) : (label o n).Yields n := by
  simp [label, ends_padding]

theorem yields_button (o : Options) : (button o n).Yields n := by
  simp [button, ends_padding]

theorem yields_app (o : Options) : (app o n).Yields n := by
  simp [app, ends_numberedValues]

/-! Control. -/

theorem yields_controlsIf (endsWithElse : Bool) (o : Options) :
    (controlsIf endsWithElse o n).Yields n := by
  simp only [controlsIf, Script.Yields, ends_bind, ends_isPlugged]
  refine Ends.mapM (fun i _ => by simp [conditional]) fun branches hasElse => ?_
  split <;> simp [otherwise]

theorem yields_wait : (wait n).Yields n := by
  unfold wait
  dsimp only
  split
  · simp
  · next h =>
      exact ends_unreadable (f := fun raw => ((readField raw).map fun x => x.mulNat 1000).filter
        Binary64.isFinite) (by decide +kernel) h

/-! Routines. -/

theorem ends_defineRoutine {name code : String} {E : GenerateError → Prop} :
    (defineRoutine name code).Ends E (· = .nothing) := by
  simp [defineRoutine]

theorem ends_argumentNames {names : List String} {E : GenerateError → Prop}
    {Q : List String → Prop} (all : ∀ given, Q given) : (names.mapM variableName).Ends E Q :=
  .mapM (fun _ _ => ends_variableName.mpr fun _ => trivial) all

theorem ends_proceduresDefine (o : Options) {E : GenerateError → Prop} :
    (proceduresDefine o n).Ends E (· = .nothing) := by
  simp only [proceduresDefine, ends_bind, ends_procedureName, ends_bodyOf, ends_value?]
  intro routine body result
  refine ends_argumentNames fun arguments => ?_
  split <;> exact ends_defineRoutine

theorem ends_widgetsDefine (o : Options) {E : GenerateError → Prop} :
    (widgetsDefine o n).Ends E (· = .nothing) := by
  simp only [widgetsDefine, ends_bind, ends_procedureName, ends_bodyOf, ends_value?, ends_ite,
    ends_done, implies_true, true_and]
  intro widget body result unqualified
  exact ends_argumentNames fun arguments => ends_defineRoutine

theorem ends_procedureCall {E : GenerateError → Prop} {Q : String → Prop} (all : ∀ call, Q call) :
    (procedureCall n).Ends E Q := by
  simp [procedureCall, argumentValues, ends_numberedValues, all]

theorem ends_widgetCall {E : GenerateError → Prop} {Q : String × String → Prop}
    (all : ∀ call, Q call) : (widgetCall n).Ends E Q := by
  simp [widgetCall, argumentValues, ends_numberedValues, all]

theorem yields_widgetsCallReturn : (widgetsCallReturn n).Yields n := by
  simp only [widgetsCallReturn, Script.Yields, ends_bind]
  refine ends_widgetCall fun call => ?_
  split <;> simp

theorem ends_returnLine {o : Options} {E : GenerateError → Prop} {Q : String → Prop}
    (all : ∀ line, Q line) : (returnLine o n).Ends E Q := by
  unfold returnLine
  split <;> simp [all]

end Template

/-- The script of a definition leaves nothing. -/
theorem Kind.ends_definition {kind : Kind} (definition : kind.isProcedureDefinition = true)
    (o : Options) (n : Node) {E : GenerateError → Prop} :
    (kind.script o n).Ends E (· = .nothing) := by
  cases kind with
  | proceduresDefReturn | proceduresDefNoReturn => exact ends_proceduresDefine o
  | widgetsDefReturn | widgetsDefNoReturn => exact ends_widgetsDefine o
  | _ => simp [isProcedureDefinition] at definition

/-- The script of any other block leaves code, unless the block complains. -/
theorem Kind.yields_script {kind : Kind} (ordinary : kind.isProcedureDefinition = false)
    (o : Options) (n : Node) : (kind.script o n).Yields n := by
  cases kind with
  | proceduresDefReturn | proceduresDefNoReturn | widgetsDefReturn | widgetsDefNoReturn =>
      simp [isProcedureDefinition] at ordinary
  | controlsIf => exact yields_controlsIf false o
  | controlsIfElse => exact yields_controlsIf true o
  | logicCompare => exact yields_logicCompare
  | logicOperation => exact yields_logicOperation
  | logicBoolean => exact yields_logicBoolean
  | mathNumber => exact yields_mathNumber
  | mathArithmetic => exact yields_mathArithmetic
  | mathSingle | mathRound | mathTrig => exact yields_mathSingle
  | mathConstant => exact yields_mathConstant
  | mathNumberProperty => exact yields_mathNumberProperty
  | mathOnList => exact yields_mathOnList
  | textJoin => exact yields_textJoin
  | textIndexOf => exact yields_sequenceIndexOf .text o
  | textCharAt => exact yields_textCharAt o
  | textGetSubstring => exact yields_textGetSubstring o
  | textChangeCase => exact yields_textChangeCase
  | textTrim => exact yields_textTrim
  | textPrompt | textPromptExt => exact yields_textPrompt
  | listsIndexOf => exact yields_sequenceIndexOf .list o
  | listsGetIndex => exact yields_listsGetIndex o
  | listsSetIndex => exact yields_listsSetIndex o
  | listsGetSublist => exact yields_listsGetSublist o
  | listsSort => exact yields_listsSort
  | listsSplit => exact yields_listsSplit
  | wait => exact yields_wait
  | digitalTogglePin => exact yields_digitalTogglePin
  | digitalReadPin => exact yields_digitalReadPin
  | digitalWritePin => exact yields_digitalWritePin
  | app => exact yields_app o
  | label => exact yields_label o
  | button => exact yields_button o
  | widgetsCallReturn => exact yields_widgetsCallReturn
  | logicNegate => simp [script, Template.logicNegate]
  | logicNull => simp [script, Template.logicNull]
  | logicTernary => simp [script, Template.logicTernary]
  | mathChange => simp [script, Template.mathChange]
  | mathModulo => simp [script, Template.mathModulo]
  | mathConstrain => simp [script, Template.mathConstrain]
  | mathRandomInt => simp [script, Template.mathRandomInt]
  | mathRandomFloat => simp [script, Template.mathRandomFloat]
  | mathAtan2 => simp [script, Template.mathAtan2]
  | text => simp [script, Template.textLiteral]
  | textMultiline => simp [script, Template.textMultiline]
  | textAppend => simp [script, Template.textAppend]
  | textLength | listsLength => simp [script, Template.sequenceLength]
  | textIsEmpty | listsIsEmpty => simp [script, Template.sequenceIsEmpty]
  | textPrint => simp [script, Template.textPrint]
  | textCount => simp [script, Template.textCount]
  | textReplace => simp [script, Template.textReplace]
  | textReverse => simp [script, Template.textReverse]
  | listsCreateEmpty => simp [script, Template.listsCreateEmpty]
  | listsCreateWith => simp [script, Template.listsCreateWith, ends_numberedValues]
  | listsRepeat => simp [script, Template.listsRepeat]
  | listsReverse => simp [script, Template.listsReverse]
  | colourPicker => simp [script, Template.colourPicker]
  | colourRandom => simp [script, Template.colourRandom]
  | colourRgb => simp [script, Template.colourRgb]
  | colourBlend => simp [script, Template.colourBlend]
  | variablesGet | variablesGetDynamic => simp [script, Template.variablesGet]
  | variablesSet | variablesSetDynamic => simp [script, Template.variablesSet]
  | proceduresCallReturn => simp [script, Template.proceduresCallReturn, ends_procedureCall]
  | proceduresCallNoReturn => simp [script, Template.proceduresCallNoReturn, ends_procedureCall]
  | proceduresIfReturn => simp [script, Template.proceduresIfReturn, ends_returnLine]
  | coap => simp [script, Template.coap, ends_numberedValues]
  | field => simp [script, Template.field]
  | forever => simp [script, Template.forever]
  | onStart => simp [script, Template.onStart]
  | widgetsCallNoReturn => simp [script, Template.widgetsCallNoReturn, ends_widgetCall]
  | widgetsIfReturn => simp [script, Template.widgetsIfReturn, ends_returnLine]

/-- A script fails by a complaint of its block; a definition leaves nothing, and all other blocks
leave code. -/
theorem Kind.ends_script (kind : Kind) (o : Options) (n : Node) :
    (kind.script o n).Ends n.Complaint
      fun emitted => emitted = .nothing ↔ kind.isProcedureDefinition = true := by
  cases definition : kind.isProcedureDefinition with
  | true =>
      exact (ends_definition definition o n).mono (fun _ he => he) fun emitted h =>
        iff_of_true h rfl
  | false =>
      exact (yields_script definition o n).mono (fun _ he => he) fun emitted h =>
        iff_of_false h Bool.false_ne_true

/-- The run of a script that succeeds leaves nothing exactly if its block is a definition. -/
theorem Kind.eq_nothing_iff {kind : Kind} {o : Options} {n : Node} {s : Surroundings}
    {ledger after : Ledger} {emitted : Emitted}
    (h : (kind.script o n).run o s ledger = (.ok emitted, after)) :
    emitted = .nothing ↔ kind.isProcedureDefinition = true := by
  have ends := Script.Ends.run (fun _ _ => Pass.Ends.trivial _) (fun _ => Pass.Ends.trivial _)
    ((ends_script kind o n).mono (fun _ _ => trivial) fun _ h => h) (o := o) (s := s) ledger
  rwa [h] at ends

end BlockScript
