import BlockScript.Proofs.Number.WholeNumber
import BlockScript.Proofs.Rendering.Reach
import BlockScript.Proofs.Text.LineEnds
import BlockScript.Template

/-! # What blocks look up and leave

The script of a block looks for chains in the statement inputs of its kind and for values in other
inputs only, and it complains about one of a few fields. A statement that it leaves ends its last
line, except for the two kinds whose code ends with a parenthesis; and the kinds that place the
statement templates themselves leave a condition. -/

namespace BlockScript

open Script Template Number
open Text (EndsLine)

/-- The fields that blocks complain about. -/
def Template.optionFields : List String :=
  ["OP", "BOOL", "CONSTANT", "PROPERTY", "CASE", "MODE", "TYPE", "END", "WHERE", "WHERE1", "WHERE2",
    "PIN", "VALUE"]

/-- The reach of blocks without statement inputs. -/
def Reach.plain : Reach where
  values := fun _ => True
  bodies := fun _ => False
  fields := (· ∈ optionFields)

/-- The reach of a kind of blocks: statement inputs are for chains, all others for values. -/
def Kind.reach (kind : Kind) : Reach where
  values := fun input => kind.isStatementInput input = false
  bodies := fun input => kind.isStatementInput input = true
  fields := (· ∈ optionFields)

@[simp] theorem Reach.plain_values (input : String) : Reach.plain.values input ↔ True := Iff.rfl

@[simp] theorem Reach.plain_fields (field : String) :
    Reach.plain.fields field ↔ field ∈ optionFields := Iff.rfl

theorem Kind.plain_le_reach {kind : Kind} (h : ∀ input, kind.isStatementInput input = false) :
    Reach.plain ≤ kind.reach where
  values := fun input _ => h input
  bodies := fun _ h => h.elim
  fields := fun _ h => h

/-- A statement that ends its last line, or no statement. -/
def Emitted.IsComplete : Emitted → Prop
  | .statement code => EndsLine code
  | .value _ _ | .nothing => True

@[simp] theorem Emitted.isComplete_value {code : String} {level : Precedence} :
    (Emitted.value code level).IsComplete ↔ True := Iff.rfl

@[simp] theorem Emitted.isComplete_nothing : Emitted.nothing.IsComplete ↔ True := Iff.rfl

@[simp] theorem Emitted.isComplete_statement {code : String} :
    (Emitted.statement code).IsComplete ↔ EndsLine code := Iff.rfl

/-- A statement after a text is complete if it is complete itself. -/
theorem Emitted.isComplete_append {front code : String} (h : EndsLine code) :
    (Emitted.statement (front ++ code)).IsComplete := h.append front

/-- The script stays within the reach of blocks without statement inputs, and its statements are
complete. -/
abbrev Script.Completes (s : Script Emitted) : Prop := s.Stays .plain Emitted.IsComplete

namespace Template
variable {n : Node} {o : Options}

/-! Fields. -/

@[simp] theorem field?_unknownOption (field : String) (value : Option String) :
    (n.unknownOption field value).field? = some field := rfl

@[simp] theorem field?_invalidNumber (id value : String) :
    (GenerateError.invalidNumber id value).field? = none := rfl

theorem stays_unknownOption {α : Type} {Q : α → Prop} {field : String} {value : Option String}
    (h : field ∈ optionFields) :
    (fail (n.unknownOption field value) : Script α).Stays .plain Q := by
  simpa using h

theorem stays_requiredField {field : String} {Q : String → Prop} (h : field ∈ optionFields)
    (all : ∀ value, Q value) : (n.requiredField field).Stays .plain Q := by
  unfold Node.requiredField
  split
  · exact stays_done.mpr (all _)
  · exact stays_unknownOption h

theorem stays_positionOr {field : String} {default : Option Position} {Q : Position → Prop}
    (h : field ∈ optionFields) (all : ∀ position, Q position) :
    (positionOr n field default).Stays .plain Q := by
  unfold positionOr
  split
  · exact stays_done.mpr (all _)
  · exact stays_unknownOption h
  · split
    · exact stays_done.mpr (all _)
    · exact stays_unknownOption h

theorem stays_adjustedIndex {input : String} {delta : Int} {required : Precedence}
    {Q : String → Prop} (all : ∀ code, Q code) :
    (adjustedIndex o input delta required).Stays .plain Q := by
  simp [adjustedIndex, all]

theorem stays_values {base : String} {level : Precedence} {default : String} {count : Nat}
    {Q : List String → Prop} (all : ∀ codes, Q codes) :
    (numberedValues base level default count).Stays .plain Q :=
  stays_numberedValues (fun _ => trivial) all

/-! Operators. -/

theorem completes_binary (operator : String) (level : Precedence) :
    (binary operator level).Completes := by
  simp [binary]

theorem isComplete_numeral (x : Binary64) : (numeral x).IsComplete := by
  unfold numeral
  repeat' split
  all_goals trivial

theorem completes_mathNumber : (mathNumber n).Completes := by
  unfold mathNumber
  dsimp only
  split
  · exact stays_done.mpr (isComplete_numeral _)
  · simp [notANumber]

theorem completes_mathArithmetic : (mathArithmetic n).Completes := by
  simp only [mathArithmetic, Script.Completes, stays_bind]
  refine stays_requiredField (by decide) fun op => ?_
  split
  · exact completes_binary _ _
  · split
    · simp [power]
    · exact stays_unknownOption (by decide)

theorem completes_logicCompare : (logicCompare n).Completes := by
  simp only [logicCompare, Script.Completes, stays_bind]
  refine stays_requiredField (by decide) fun op => ?_
  split
  · exact completes_binary _ _
  · exact stays_unknownOption (by decide)

theorem completes_logicOperation : (logicOperation n).Completes := by
  simp only [logicOperation, Script.Completes, stays_bind]
  refine stays_requiredField (by decide) fun op => ?_
  split
  · exact stays_unknownOption (by decide)
  · simp only [stays_bind, stays_value?, Reach.plain_values, true_and]
    intro a b
    split <;> simp

theorem completes_logicBoolean : (logicBoolean n).Completes := by
  simp only [logicBoolean, Script.Completes, stays_bind]
  refine stays_requiredField (by decide) fun value => ?_
  split
  · simp
  · simp
  · exact stays_unknownOption (by decide)

theorem completes_test (property : Property) : property.test.Completes := by
  unfold Property.test
  split
  · simp only [Script.Completes, stays_bind, stays_value?, Reach.plain_values, true_and]
    intro number
    cases number <;> simp [falseLiteral]
  · simp only [Script.Completes, stays_bind, stays_value?, Reach.plain_values, true_and]
    intro number
    cases number with
    | none => simp [falseLiteral]
    | some number =>
        cases property with
        | prime | divisible =>
            simp only [stays_bind, stays_value?, Reach.plain_values, true_and]
            intro divisor
            cases divisor <;> simp [falseLiteral, remainderIs]
        | even | odd | whole | positive | negative => simp [remainderIs]

theorem completes_mathNumberProperty : (mathNumberProperty n).Completes := by
  simp only [mathNumberProperty, Script.Completes, stays_bind]
  refine stays_requiredField (by decide) fun name => ?_
  split
  · exact stays_unknownOption (by decide)
  · exact completes_test _

/-! Functions. -/

theorem completes_mathSingle : (mathSingle n).Completes := by
  simp only [mathSingle, Script.Completes, stays_bind]
  refine stays_requiredField (by decide) fun op => ?_
  split
  · simp [negation]
  · split
    · exact stays_unknownOption (by decide)
    · simp

theorem completes_mathConstant : (mathConstant n).Completes := by
  simp only [mathConstant, Script.Completes, stays_bind]
  refine stays_requiredField (by decide) fun name => ?_
  split
  · simp
  · split
    · exact stays_unknownOption (by decide)
    · simp

theorem completes_mathOnList : (mathOnList n).Completes := by
  simp only [mathOnList, Script.Completes, stays_bind]
  refine stays_requiredField (by decide) fun op => ?_
  split
  · exact stays_unknownOption (by decide)
  · simp only [stays_bind, stays_valueOr, Reach.plain_values, true_and]
    intro list
    split <;> simp

/-! Lists and texts. -/

theorem completes_listsSort : (listsSort n).Completes := by
  simp only [listsSort, Script.Completes, stays_bind]
  refine stays_requiredField (by decide) fun sortOrder => ?_
  split
  · simp
  · exact stays_unknownOption (by decide)

theorem completes_listsSplit : (listsSplit n).Completes := by
  simp only [listsSplit, Script.Completes, stays_bind]
  refine stays_requiredField (by decide) fun mode => ?_
  split
  · exact stays_unknownOption (by decide)
  · simp

theorem completes_textJoin : (textJoin n).Completes := by
  unfold textJoin
  split
  · simp
  · simp
  · simp [stays_values]

theorem completes_textMethod (call : String) : (textMethod call).Completes := by
  simp [textMethod]

theorem completes_textChangeCase : (textChangeCase n).Completes := by
  simp only [textChangeCase, Script.Completes, stays_bind]
  refine stays_requiredField (by decide) fun letters => ?_
  split
  · exact completes_textMethod _
  · exact completes_textMethod _
  · simp
  · exact stays_unknownOption (by decide)

theorem completes_textTrim : (textTrim n).Completes := by
  simp only [textTrim, Script.Completes, stays_bind]
  refine stays_requiredField (by decide) fun side => ?_
  split
  · exact completes_textMethod _
  · exact completes_textMethod _
  · exact completes_textMethod _
  · exact stays_unknownOption (by decide)

theorem stays_asksForNumber {Q : Bool → Prop} (all : ∀ answer, Q answer) :
    (asksForNumber n).Stays .plain Q := by
  unfold asksForNumber
  split
  · exact stays_done.mpr (all false)
  · exact stays_done.mpr (all false)
  · exact stays_done.mpr (all true)
  · exact stays_unknownOption (by decide)

theorem stays_promptMessage {Q : String → Prop} (all : ∀ code, Q code) :
    (promptMessage n).Stays .plain Q := by
  unfold promptMessage
  split
  · exact stays_done.mpr (all _)
  · exact stays_valueOr.mpr ⟨trivial, all⟩

theorem completes_textPrompt : (textPrompt n).Completes := by
  simp only [textPrompt, Script.Completes, stays_bind, stays_requireModule]
  refine stays_asksForNumber fun isNumber => stays_promptMessage fun message => ?_
  split <;> simp

theorem completes_textAppend : (textAppend n).Completes := by
  simp only [textAppend, Script.Completes, stays_bind, stays_variableName, stays_valueOr,
    Reach.plain_values, true_and, stays_done]
  exact fun target text => Emitted.isComplete_append (by decide)

theorem completes_textPrint : textPrint.Completes := by
  simp only [textPrint, Script.Completes, stays_bind, stays_valueOr, Reach.plain_values, true_and,
    stays_done]
  exact fun message => Emitted.isComplete_append (by decide)

/-! Slices. -/

theorem completes_sequenceIndexOf (kind : SequenceKind) : (sequenceIndexOf kind o n).Completes := by
  simp only [sequenceIndexOf, Script.Completes, stays_bind]
  refine stays_requiredField (by decide) fun fromSide => ?_
  split
  · exact stays_unknownOption (by decide)
  · simp only [stays_bind, stays_valueOr, Reach.plain_values, true_and]
    intro item sequence
    split <;> simp

theorem stays_positionWith {field : String} {position : Position} {holds : Bool} {Q : Unit → Prop}
    (h : field ∈ optionFields) (all : Q ()) :
    (positionWith n field position holds).Stays .plain Q := by
  unfold positionWith
  split
  · exact stays_done.mpr all
  · exact stays_unknownOption h

theorem stays_sliceEnds {Q : Position × Position → Prop} (all : ∀ ends, Q ends) :
    (sliceEnds n).Stays .plain Q := by
  simp only [sliceEnds, stays_bind]
  refine stays_positionOr (by decide) fun start => ?_
  refine stays_positionOr (by decide) fun stop => ?_
  refine stays_positionWith (by decide) (stays_positionWith (by decide) ?_)
  exact stays_done.mpr (all (start, stop))

theorem stays_sliceStart {sequence : String} {position : Position} {Q : String → Prop}
    (all : ∀ code, Q code) : (sliceStart o sequence position).Stays .plain Q := by
  unfold sliceStart
  split <;> simp [all, stays_adjustedIndex]

theorem completes_sliceOf (kind : SequenceKind) (sequence : String) (start stop : Position) :
    (sliceOf kind o sequence start stop).Completes := by
  unfold sliceOf
  split
  · simp only [directSlice, Script.Completes, stays_bind]
    refine stays_sliceStart fun at1 => ?_
    split <;> simp [stays_adjustedIndex]
  · simp [helperSlice, stays_adjustedIndex]

theorem completes_listsGetSublist : (listsGetSublist o n).Completes := by
  simp only [listsGetSublist, Script.Completes, stays_bind]
  refine stays_sliceEnds fun ends => stays_valueOr.mpr ⟨trivial, fun list => ?_⟩
  exact completes_sliceOf ..

theorem completes_textGetSubstring : (textGetSubstring o n).Completes := by
  simp only [textGetSubstring, Script.Completes, stays_bind]
  refine stays_sliceEnds fun ends => stays_valueOr.mpr ⟨trivial, fun text => ?_⟩
  split
  · simp
  · exact completes_sliceOf ..

/-! Elements. -/

theorem stays_readMode {Q : ReadMode → Prop} (all : ∀ mode, Q mode) :
    (readMode n).Stays .plain Q := by
  unfold readMode
  split
  · exact stays_done.mpr (all .keep)
  · exact stays_done.mpr (all .keep)
  · exact stays_done.mpr (all .take)
  · exact stays_done.mpr (all .drop)
  · exact stays_unknownOption (by decide)

theorem stays_writeMode {Q : WriteMode → Prop} (all : ∀ mode, Q mode) :
    (writeMode n).Stays .plain Q := by
  unfold writeMode
  split
  · exact stays_done.mpr (all .replace)
  · exact stays_done.mpr (all .replace)
  · exact stays_done.mpr (all .shift)
  · exact stays_unknownOption (by decide)

theorem completes_emit (mode : ReadMode) (kept taken : String) :
    (mode.emit kept taken).Completes := by
  cases mode with
  | keep | take => simp [ReadMode.emit]
  | drop => exact stays_done.mpr (Emitted.isComplete_append (by decide))

theorem completes_dropRandom (binding list : String) : (dropRandom binding list).Completes := by
  simp only [dropRandom, Script.Completes, stays_bind, stays_temporaryName, stays_done]
  exact fun index => Emitted.isComplete_append (by decide)

theorem completes_readBound (mode : ReadMode) (binding list at1 : String) :
    (readBound mode binding list at1).Completes := by
  cases mode with
  | keep | take => simp [readBound]
  | drop => exact stays_done.mpr (Emitted.isComplete_append (by decide))

theorem completes_readHoisted (mode : ReadMode) (position : Position) (list : String) :
    (readHoisted o mode position list).Completes := by
  unfold readHoisted
  split
  · simp only [Script.Completes, stays_bind, stays_requireModule, stays_temporaryName]
    exact fun bound => completes_dropRandom _ _
  · simp only [Script.Completes, stays_bind, stays_temporaryName]
    exact stays_adjustedIndex fun at1 bound => completes_readBound ..

theorem completes_readDirect (mode : ReadMode) (list : String) (position : Position) :
    (readDirect o mode list position).Completes := by
  cases position with
  | first | last => exact completes_emit ..
  | fromStart | fromEnd =>
      simp only [readDirect, Script.Completes, stays_bind]
      exact stays_adjustedIndex fun index => completes_emit ..
  | random =>
      simp only [readDirect, Script.Completes, stays_bind, stays_requireModule]
      cases mode with
      | drop => exact completes_dropRandom _ _
      | keep | take => simp

theorem completes_listsGetIndex : (listsGetIndex o n).Completes := by
  simp only [listsGetIndex, Script.Completes, stays_bind]
  refine stays_readMode fun mode => stays_positionOr (by decide) fun position => ?_
  refine stays_valueOr.mpr ⟨trivial, fun list => ?_⟩
  split
  · exact completes_readHoisted ..
  · exact completes_readDirect ..

theorem stays_bindUnlessBare {list : String} {Q : String × String → Prop}
    (all : ∀ bound, Q bound) : (bindUnlessBare list).Stays .plain Q := by
  unfold bindUnlessBare
  split <;> simp [all]

theorem endsLine_write (mode : WriteMode) (list index value : String) :
    EndsLine (mode.write list index value) := by
  cases mode <;> exact Text.EndsLine.append _ (by decide)

theorem stays_writeElement {mode : WriteMode} {list value : String} {position : Position} :
    (writeElement o mode list value position).Stays .plain EndsLine := by
  cases position with
  | first => exact stays_done.mpr (endsLine_write ..)
  | last =>
      cases mode with
      | replace =>
          simp only [writeElement, stays_bind]
          exact stays_bindUnlessBare fun bound => stays_done.mpr ((endsLine_write ..).append _)
      | shift => exact stays_done.mpr (Text.EndsLine.append _ (by decide))
  | fromStart =>
      simp only [writeElement, stays_bind]
      exact stays_adjustedIndex fun index => stays_done.mpr (endsLine_write ..)
  | fromEnd =>
      simp only [writeElement, stays_bind]
      refine stays_adjustedIndex fun at1 => stays_bindUnlessBare fun bound => ?_
      exact stays_done.mpr ((endsLine_write ..).append _)
  | random =>
      simp only [writeElement, stays_bind, stays_requireModule]
      refine stays_bindUnlessBare fun bound => ?_
      exact stays_temporaryName.mpr fun index => stays_done.mpr ((endsLine_write ..).append _)

theorem completes_listsSetIndex : (listsSetIndex o n).Completes := by
  simp only [listsSetIndex, Script.Completes, stays_bind]
  refine stays_writeMode fun mode => stays_positionOr (by decide) fun position => ?_
  refine stays_valueOr.mpr ⟨trivial, fun list => stays_valueOr.mpr ⟨trivial, fun value => ?_⟩⟩
  exact stays_writeElement.imp fun code h => stays_done.mpr h

theorem completes_textCharAt : (textCharAt o n).Completes := by
  simp only [textCharAt, Script.Completes, stays_bind]
  refine stays_positionOr (by decide) fun position => ?_
  refine stays_valueOr.mpr ⟨trivial, fun text => ?_⟩
  cases position <;> simp [letterFromEnd, stays_adjustedIndex]

/-! Pins, widgets and pauses. -/

theorem stays_pinOf {Q : String → Prop} (all : ∀ pin, Q pin) : (pinOf n).Stays .plain Q := by
  unfold pinOf
  split
  · exact stays_unknownOption (by decide)
  · split
    · exact stays_done.mpr (all _)
    · exact stays_unknownOption (by decide)

theorem stays_pinLevel {Q : String → Prop} (all : ∀ level, Q level) :
    (pinLevel n).Stays .plain Q := by
  unfold pinLevel
  split
  · exact stays_done.mpr (all "0")
  · exact stays_done.mpr (all "1")
  · exact stays_unknownOption (by decide)

theorem completes_digitalTogglePin : (digitalTogglePin n).Completes := by
  simp only [digitalTogglePin, Script.Completes, stays_bind]
  exact stays_pinOf fun pin => stays_done.mpr (Emitted.isComplete_append (by decide))

theorem completes_digitalReadPin : (digitalReadPin n).Completes := by
  simp [digitalReadPin, stays_pinOf]

theorem completes_digitalWritePin : (digitalWritePin n).Completes := by
  simp only [digitalWritePin, Script.Completes, stays_bind]
  refine stays_pinOf fun pin => stays_pinLevel fun level => ?_
  exact stays_done.mpr (Emitted.isComplete_append (by decide))

theorem stays_padding {Q : String → Prop} (all : ∀ space, Q space) :
    (padding n).Stays .plain Q := by
  unfold padding
  dsimp only
  split
  · exact stays_done.mpr (all _)
  · simp

theorem completes_wait : (wait n).Completes := by
  unfold wait
  dsimp only
  split
  · exact stays_done.mpr (Emitted.isComplete_append (by decide))
  · simp

/-! Variables and calls. -/

theorem completes_variablesSet : (variablesSet n).Completes := by
  simp only [variablesSet, Script.Completes, stays_bind, stays_valueOr, stays_variableName,
    Reach.plain_values, true_and, stays_done]
  exact fun value target => Emitted.isComplete_append (by decide)

theorem completes_mathChange : (mathChange n).Completes := by
  simp only [mathChange, Script.Completes, stays_bind, stays_valueOr, stays_variableName,
    Reach.plain_values, true_and, stays_done]
  exact fun delta target => Emitted.isComplete_append (by decide)

theorem stays_procedureCall {Q : String → Prop} (all : ∀ call, Q call) :
    (procedureCall n).Stays .plain Q := by
  simp [procedureCall, argumentValues, stays_values, all]

theorem completes_proceduresCallNoReturn : (proceduresCallNoReturn n).Completes := by
  simp only [proceduresCallNoReturn, Script.Completes, stays_bind]
  exact stays_procedureCall fun call => stays_done.mpr (Emitted.isComplete_append (by decide))

theorem stays_widgetCall {Q : String × String → Prop} (all : ∀ call, Q call) :
    (widgetCall n).Stays .plain Q := by
  simp [widgetCall, argumentValues, stays_values, all]

theorem completes_widgetsCallReturn : (widgetsCallReturn n).Completes := by
  simp only [widgetsCallReturn, Script.Completes, stays_bind]
  refine stays_widgetCall fun call => ?_
  split <;> simp

theorem completes_widgetsCallNoReturn : (widgetsCallNoReturn n).Completes := by
  simp only [widgetsCallNoReturn, Script.Completes, stays_bind]
  exact stays_widgetCall fun call => stays_done.mpr (Emitted.isComplete_append (by decide))

theorem stays_returnLine {Q : String → Prop} (all : ∀ line, Q line) :
    (returnLine o n).Stays .plain Q := by
  unfold returnLine
  split <;> simp [all]

theorem completes_widgetsIfReturn : (widgetsIfReturn o n).Completes := by
  simp only [widgetsIfReturn, Script.Completes, stays_bind, stays_valueOr, Reach.plain_values,
    true_and]
  intro condition
  exact stays_returnLine fun line => stays_done.mpr (Emitted.isComplete_append (by decide))

/-! Conditions. -/

/-- A statement that is a condition behind some text. -/
def IsCondition (front : String) (emitted : Emitted) : Prop :=
  ∃ code, emitted = .statement (front ++ code) ∧ "if (".toList <+: code.toList ∧ EndsLine code

theorem IsCondition.exists_eq {front text : String} (h : IsCondition front (.statement text)) :
    ∃ code, text = front ++ code ∧ "if (".toList <+: code.toList ∧ EndsLine code := by
  obtain ⟨code, htext, rest⟩ := h
  exact ⟨code, Emitted.statement.inj htext, rest⟩

theorem prefix_toList_append {start : List Char} {code : String} (h : start <+: code.toList)
    (more : String) : start <+: (code ++ more).toList := by
  rw [String.toList_append]
  exact h.trans (List.prefix_append _ _)

theorem stays_proceduresIfReturn : (proceduresIfReturn o n).Stays .plain (IsCondition "") := by
  simp only [proceduresIfReturn, stays_bind, stays_valueOr, Reach.plain_values, true_and]
  intro condition
  refine stays_returnLine fun line => stays_done.mpr ⟨_, (congrArg _ String.empty_append).symm, ?_⟩
  refine ⟨?_, Text.EndsLine.append _ (by decide)⟩
  repeat' apply prefix_toList_append
  exact List.prefix_rfl

section Branches
variable {r : Reach} (conditions : ∀ i : Nat, r.values ("IF" ++ toString i))
  (branches : ∀ i : Nat, r.bodies ("DO" ++ toString i)) (last : r.bodies "ELSE")
include conditions branches

theorem stays_conditional (lead : String) (i : Nat) :
    (conditional lead i).Stays r fun code => i = 0 → "if (".toList <+: code.toList := by
  simp only [conditional, stays_bind, stays_valueOr, stays_bodyOf, stays_done]
  refine ⟨conditions i, fun condition => ⟨branches i, fun branch => ?_⟩⟩
  rintro rfl
  simp only [if_true, braced]
  repeat' apply prefix_toList_append
  exact List.prefix_rfl

include last

theorem stays_controlsIf (endsWithElse : Bool) :
    (controlsIf endsWithElse o n).Stays r (IsCondition ((o.prefixFor n.id).getD "")) := by
  simp only [controlsIf, stays_bind]
  refine .mapM (fun i _ => stays_conditional conditions branches _ i) fun codes hcodes => ?_
  have starts : "if (".toList <+: ("".intercalate codes).toList := by
    rw [List.range_succ_eq_map] at hcodes
    obtain ⟨first, more, start, -, rfl⟩ := List.forall₂_cons_left_iff.mp hcodes
    cases more with
    | nil => simpa using start rfl
    | cons second rest =>
        rw [String.intercalate_cons_cons]
        exact prefix_toList_append (prefix_toList_append (start rfl) _) _
  refine stays_isPlugged.mpr ⟨last, fun hasElse => ?_⟩
  have condition (rest : String) : IsCondition ((o.prefixFor n.id).getD "")
      (.statement ((o.prefixFor n.id).getD "" ++ "".intercalate codes ++ rest ++ "\n")) := by
    refine ⟨"".intercalate codes ++ rest ++ "\n", ?_, ?_, Text.EndsLine.append _ (by decide)⟩
    · simp only [String.append_assoc]
    · exact prefix_toList_append (prefix_toList_append starts _) _
  split
  · simp only [otherwise, stays_bind, stays_bodyOf, stays_done]
    exact ⟨last, fun branch => condition _⟩
  · simpa using condition ""

end Branches

/-! Loops and definitions. -/

section Bodies
variable {r : Reach}

/-- A statement whose last line is not ended: it ends with a parenthesis. -/
def EndsOpen (emitted : Emitted) : Prop := ∃ code, emitted = .statement (code ++ ")")

theorem stays_forever (body : r.bodies "STMTS") : (forever o n).Stays r EndsOpen := by
  simp only [forever, stays_bind, stays_bodyOf, stays_done]
  exact ⟨body, fun code => ⟨_, rfl⟩⟩

theorem stays_onStart (body : r.bodies "STMTS") : onStart.Stays r EndsOpen := by
  simp only [onStart, stays_bind, stays_bodyOf, stays_done]
  exact ⟨body, fun code => ⟨_, rfl⟩⟩

theorem stays_defineRoutine (name code : String) :
    (defineRoutine name code).Stays r Emitted.IsComplete := by
  simp [defineRoutine]

theorem stays_argumentNames {names : List String} {Q : List String → Prop}
    (all : ∀ given, Q given) : (names.mapM variableName).Stays r Q :=
  .mapM (P := fun _ _ => True) (fun _ _ => stays_variableName.mpr fun _ => trivial)
    fun given _ => all given

variable (body : r.bodies "STACK") (result : r.values "RETURN")
include body result

theorem stays_proceduresDefine : (proceduresDefine o n).Stays r Emitted.IsComplete := by
  simp only [proceduresDefine, stays_bind, stays_procedureName, stays_bodyOf, stays_value?]
  refine fun routine => ⟨body, fun code => ⟨result, fun returned => ?_⟩⟩
  refine stays_argumentNames fun arguments => ?_
  split <;> exact stays_defineRoutine _ _

theorem stays_widgetsDefine : (widgetsDefine o n).Stays r Emitted.IsComplete := by
  simp only [widgetsDefine, stays_bind, stays_procedureName, stays_bodyOf, stays_value?]
  refine fun widget => ⟨body, fun code => ⟨result, fun returned => ?_⟩⟩
  split
  · exact stays_done.mpr trivial
  · exact stays_bind.mpr (stays_argumentNames fun arguments => stays_defineRoutine _ _)

end Bodies

end Template

namespace Kind

/-- Kinds whose code ends with a parenthesis, and no newline behind it. -/
def endsOpen : Kind → Bool
  | .forever | .onStart => true
  | _ => false

/-- What a block of a kind leaves, unless it fails. -/
def Leaves (o : Options) (n : Node) (kind : Kind) (emitted : Emitted) : Prop :=
  match kind with
  | .forever | .onStart => EndsOpen emitted
  | .controlsIf | .controlsIfElse => IsCondition ((o.prefixFor n.id).getD "") emitted
  | .proceduresIfReturn => IsCondition "" emitted
  | _ => emitted.IsComplete

/-- Kinds without statement inputs whose statements have nothing special. -/
def isPlain : Kind → Bool
  | .controlsIf | .controlsIfElse | .proceduresIfReturn | .forever | .onStart
  | .proceduresDefReturn | .proceduresDefNoReturn | .widgetsDefReturn | .widgetsDefNoReturn => false
  | _ => true

theorem isStatementInput_of_isPlain {kind : Kind} (plain : kind.isPlain = true) (input : String) :
    kind.isStatementInput input = false := by
  cases kind with
  | controlsIf | controlsIfElse | proceduresIfReturn | forever | onStart | proceduresDefReturn
  | proceduresDefNoReturn | widgetsDefReturn | widgetsDefNoReturn => exact nomatch plain
  | _ => rfl

theorem leaves_of_isPlain {kind : Kind} (plain : kind.isPlain = true) (o : Options) (n : Node) :
    kind.Leaves o n = Emitted.IsComplete := by
  cases kind with
  | controlsIf | controlsIfElse | proceduresIfReturn | forever | onStart | proceduresDefReturn
  | proceduresDefNoReturn | widgetsDefReturn | widgetsDefNoReturn => exact nomatch plain
  | _ => rfl

theorem completes_script {kind : Kind} (plain : kind.isPlain = true) (o : Options) (n : Node) :
    (kind.script o n).Completes := by
  cases kind with
  | controlsIf | controlsIfElse | proceduresIfReturn | forever | onStart | proceduresDefReturn
  | proceduresDefNoReturn | widgetsDefReturn | widgetsDefNoReturn => exact nomatch plain
  | logicCompare => exact completes_logicCompare
  | logicOperation => exact completes_logicOperation
  | logicBoolean => exact completes_logicBoolean
  | mathNumber => exact completes_mathNumber
  | mathArithmetic => exact completes_mathArithmetic
  | mathSingle | mathRound | mathTrig => exact completes_mathSingle
  | mathConstant => exact completes_mathConstant
  | mathNumberProperty => exact completes_mathNumberProperty
  | mathChange => exact completes_mathChange
  | mathOnList => exact completes_mathOnList
  | textJoin => exact completes_textJoin
  | textAppend => exact completes_textAppend
  | textIndexOf => exact completes_sequenceIndexOf .text
  | textCharAt => exact completes_textCharAt
  | textGetSubstring => exact completes_textGetSubstring
  | textChangeCase => exact completes_textChangeCase
  | textTrim => exact completes_textTrim
  | textPrint => exact completes_textPrint
  | textPrompt | textPromptExt => exact completes_textPrompt
  | listsIndexOf => exact completes_sequenceIndexOf .list
  | listsGetIndex => exact completes_listsGetIndex
  | listsSetIndex => exact completes_listsSetIndex
  | listsGetSublist => exact completes_listsGetSublist
  | listsSort => exact completes_listsSort
  | listsSplit => exact completes_listsSplit
  | variablesSet | variablesSetDynamic => exact completes_variablesSet
  | proceduresCallNoReturn => exact completes_proceduresCallNoReturn
  | wait => exact completes_wait
  | digitalTogglePin => exact completes_digitalTogglePin
  | digitalReadPin => exact completes_digitalReadPin
  | digitalWritePin => exact completes_digitalWritePin
  | widgetsCallReturn => exact completes_widgetsCallReturn
  | widgetsCallNoReturn => exact completes_widgetsCallNoReturn
  | widgetsIfReturn => exact completes_widgetsIfReturn
  | logicNegate => simp [script, Template.logicNegate]
  | logicNull => simp [script, Template.logicNull]
  | logicTernary => simp [script, Template.logicTernary]
  | mathModulo => simp [script, Template.mathModulo]
  | mathConstrain => simp [script, Template.mathConstrain]
  | mathRandomInt => simp [script, Template.mathRandomInt]
  | mathRandomFloat => simp [script, Template.mathRandomFloat]
  | mathAtan2 => simp [script, Template.mathAtan2]
  | text => simp [script, Template.textLiteral]
  | textMultiline => simp [script, Template.textMultiline]
  | textLength | listsLength => simp [script, Template.sequenceLength]
  | textIsEmpty | listsIsEmpty => simp [script, Template.sequenceIsEmpty]
  | textCount => simp [script, Template.textCount]
  | textReplace => simp [script, Template.textReplace]
  | textReverse => simp [script, Template.textReverse]
  | listsCreateEmpty => simp [script, Template.listsCreateEmpty]
  | listsCreateWith => simp [script, Template.listsCreateWith, stays_values]
  | listsRepeat => simp [script, Template.listsRepeat]
  | listsReverse => simp [script, Template.listsReverse]
  | colourPicker => simp [script, Template.colourPicker]
  | colourRandom => simp [script, Template.colourRandom]
  | colourRgb => simp [script, Template.colourRgb]
  | colourBlend => simp [script, Template.colourBlend]
  | variablesGet | variablesGetDynamic => simp [script, Template.variablesGet]
  | proceduresCallReturn => simp [script, Template.proceduresCallReturn, stays_procedureCall]
  | coap => simp [script, Template.coap, stays_values]
  | field => simp [script, Template.field]
  | app => simp [script, Template.app, stays_values]
  | label => simp [script, Template.label, stays_padding]
  | button => simp [script, Template.button, stays_padding]

theorem isBranchName_do (i : Nat) : isBranchName ("DO" ++ toString i).toList = true := by
  have digits : (toString i).toList.all Text.isAsciiDigit = true :=
    List.all_eq_true.mpr fun c => Names.isAsciiDigit_of_mem_toString i
  have nonempty : (toString i).toList.isEmpty = false :=
    List.isEmpty_eq_false_iff.mpr (toString_ne_nil i)
  rw [String.toList_append]
  change (!(toString i).toList.isEmpty && (toString i).toList.all Text.isAsciiDigit) = true
  rw [digits, nonempty]
  rfl

/-- The branches of a condition are statement inputs, and what they depend on are not. -/
theorem stays_controlsIf {kind : Kind} {endsWithElse : Bool} (o : Options) (n : Node)
    (h : ∀ input, kind.isStatementInput input = (input == "ELSE" || isBranchName input.toList)) :
    (Template.controlsIf endsWithElse o n).Stays kind.reach
      (IsCondition ((o.prefixFor n.id).getD "")) := by
  refine Template.stays_controlsIf (fun i => ?_) (fun i => ?_) ?_ endsWithElse
  · have other : "IF" ++ toString i ≠ "ELSE" := by
      intro same
      simpa using congrArg (List.head? ∘ String.toList) same
    change kind.isStatementInput _ = false
    rw [h, beq_false_of_ne other, String.toList_append]
    rfl
  · change kind.isStatementInput _ = true
    rw [h, isBranchName_do, Bool.or_true]
  · change kind.isStatementInput _ = true
    rw [h]
    rfl

/-- The script of a block stays within the reach of its kind. -/
theorem stays_script (kind : Kind) (o : Options) (n : Node) :
    (kind.script o n).Stays kind.reach (kind.Leaves o n) := by
  by_cases plain : kind.isPlain = true
  · rw [leaves_of_isPlain plain]
    exact (completes_script plain o n).mono (plain_le_reach (isStatementInput_of_isPlain plain))
      fun _ h => h
  · cases kind with
    | controlsIf | controlsIfElse => exact stays_controlsIf o n fun _ => rfl
    | proceduresIfReturn =>
        exact stays_proceduresIfReturn.mono (plain_le_reach fun _ => rfl) fun _ h => h
    | forever => exact stays_forever rfl
    | onStart => exact stays_onStart rfl
    | proceduresDefReturn | proceduresDefNoReturn => exact stays_proceduresDefine rfl rfl
    | widgetsDefReturn | widgetsDefNoReturn => exact stays_widgetsDefine rfl rfl
    | _ => exact absurd rfl plain

end Kind

end BlockScript
