import BlockScript.Proofs.Template.Closing
import BlockScript.Template.Element
import BlockScript.Template.ListValue
import BlockScript.Template.Text

/-! # Closed texts and lists

The scripts that read texts, lists and their elements leave closed code. -/

namespace BlockScript.Template

open Text (Walks)
open Script

variable {o : Options} {n : Node}

/-! ### Texts and lists -/

theorem closes_listsCreateWith : (listsCreateWith n).Honours closing Emitted.IsClosed :=
  .andThen (.closedValues rfl fun _ => rfl) fun _ h =>
    isClosed_bracketed rfl (fun _ => rfl) rfl (fun _ => rfl) h

theorem closes_listsRepeat : listsRepeat.Honours closing Emitted.IsClosed := by
  refine .andThen (.closedValue rfl fun _ => rfl) fun item hi => ?_
  refine .andThen (.closedValue rfl fun _ => rfl) fun count hc => ?_
  exact fun _ => ((((Walks.start rfl rfl).code hc).text rfl rfl).code hi).text rfl rfl

theorem closes_listsSort : (listsSort n).Honours closing Emitted.IsClosed := by
  refine .anyThen fun sortOrder => ?_
  split
  · next known =>
      have hmem : sortOrder ∈ sortOrders := by simpa using known
      simp only [sortOrders, List.mem_cons, List.not_mem_nil, or_false] at hmem
      have direction : Text.IsClosed (sortDirection n) := by
        unfold sortDirection
        split <;> exact .literal rfl fun _ => rfl
      refine .andThen (.closedValue rfl fun _ => rfl) fun list hl => ?_
      refine .andThen (.closedHelper _) fun name hname => ?_
      rcases hmem with rfl | rfl | rfl
      all_goals
        exact fun depth => (((((((hname depth).text rfl rfl).code hl).text rfl rfl).text rfl
          rfl).text rfl rfl).code direction).text rfl rfl
  · exact trivial

theorem closes_listsSplit : (listsSplit n).Honours closing Emitted.IsClosed := by
  refine .anyThen fun mode => ?_
  split
  · exact trivial
  · next method empty known =>
      have closed : Text.IsClosed method ∧ Text.IsClosed empty := by
        unfold splitMethod? at known
        split at known <;> cases known <;>
          exact ⟨.literal rfl fun _ => rfl, .literal rfl fun _ => rfl⟩
      refine .andThen (.valueOr closed.2) fun input hi => ?_
      refine .andThen (.closedValue rfl fun _ => rfl) fun delimiter hd => ?_
      exact fun depth => (((((hi depth).text rfl rfl).code closed.1).text rfl rfl).code hd).text
        rfl rfl

theorem closes_listsReverse : listsReverse.Honours closing Emitted.IsClosed :=
  .andThen (.closedValue rfl fun _ => rfl) fun _ h _ =>
    ((Walks.start rfl rfl).code h).text rfl rfl

theorem closes_textJoin : (textJoin n).Honours closing Emitted.IsClosed := by
  unfold textJoin
  split
  · exact Text.IsClosed.literal rfl fun _ => rfl
  · exact .andThen (.closedValue rfl fun _ => rfl) fun item h depth => (h depth).text rfl rfl
  · refine .andThen (.closedValues rfl fun _ => rfl) fun items h => ?_
    exact isClosed_bracketed rfl (fun _ => rfl) rfl (fun _ => rfl) h

theorem closes_textMethod {call : String} (h : Text.IsClosed call) :
    (textMethod call).Honours closing Emitted.IsClosed :=
  .andThen (.closedValue rfl fun _ => rfl) fun _ ht => ht.append h

theorem closes_textChangeCase : (textChangeCase n).Honours closing Emitted.IsClosed := by
  refine .anyThen fun letters => ?_
  split
  · exact closes_textMethod (.literal rfl fun _ => rfl)
  · exact closes_textMethod (.literal rfl fun _ => rfl)
  · refine .andThen (.closedValue rfl fun _ => rfl) fun text ht => ?_
    exact .andThen (.closedHelper _) fun name hname => isClosed_call hname ht
  · exact trivial

theorem closes_textTrim : (textTrim n).Honours closing Emitted.IsClosed := by
  refine .anyThen fun side => ?_
  split
  · exact closes_textMethod (.literal rfl fun _ => rfl)
  · exact closes_textMethod (.literal rfl fun _ => rfl)
  · exact closes_textMethod (.literal rfl fun _ => rfl)
  · exact trivial

theorem closes_textPrompt : (textPrompt n).Honours closing Emitted.IsClosed := by
  have message : (promptMessage n).Honours closing Text.IsClosed := by
    unfold promptMessage
    split
    · next text _ => exact Text.isClosed_quote text
    · exact .closedValue rfl fun _ => rfl
  refine .anyThen fun isNumber => .anyThen fun _ => .andThen message fun text h => ?_
  have code : Text.IsClosed ("Html.window.prompt(" ++ text ++ ", '')") :=
    fun _ => ((Walks.start rfl rfl).code h).text rfl rfl
  dsimp only
  split
  · exact .anyThen fun _ _ => ((Walks.start rfl rfl).code code).text rfl rfl
  · exact code

theorem closes_textCount : textCount.Honours closing Emitted.IsClosed := by
  refine .andThen (.closedValue rfl fun _ => rfl) fun text ht => ?_
  refine .andThen (.closedValue rfl fun _ => rfl) fun part hp => ?_
  exact .andThen (.closedHelper _) fun name hname => isClosed_call₂ hname ht hp

theorem closes_textReplace : textReplace.Honours closing Emitted.IsClosed := by
  refine .andThen (.closedValue rfl fun _ => rfl) fun text ht => ?_
  refine .andThen (.closedValue rfl fun _ => rfl) fun old ho => ?_
  refine .andThen (.closedValue rfl fun _ => rfl) fun new hn => ?_
  exact fun depth => (((((ht depth).text rfl rfl).code ho).text rfl rfl).code hn).text rfl rfl

theorem closes_textReverse : textReverse.Honours closing Emitted.IsClosed :=
  .andThen (.closedValue rfl fun _ => rfl) fun _ h _ =>
    ((Walks.start rfl rfl).code h).text rfl rfl

/-! ### Positions and slices -/

theorem isClosed_shiftedCode {code : String} (h : Text.IsClosed code) (shift : Int)
    (required : Precedence) : Text.IsClosed (shiftedCode code shift required) := by
  unfold shiftedCode
  split
  · exact isClosed_wrap (fun depth => ((h depth).text rfl rfl).code (isClosed_toString_int _)) _ _
  · split
    · exact isClosed_wrap (fun depth => ((h depth).text rfl rfl).code (isClosed_toString_int _)) _ _
    · exact h

theorem closes_adjustedIndex (input : String) (delta : Int) (required : Precedence) :
    (adjustedIndex o input delta required).Honours closing Text.IsClosed := by
  have first : Text.IsClosed o.firstIndex := by
    unfold Options.firstIndex
    split <;> exact .literal rfl fun _ => rfl
  refine .andThen (.valueOr first) fun code h => ?_
  have index : Text.IsClosed (shiftIndex code (indexShift o delta) required) := by
    unfold shiftIndex
    split
    · exact isClosed_toString_int _
    · exact isClosed_shiftedCode h _ _
  exact index

theorem closes_sequence (kind : SequenceKind) (input : String) (level : Precedence) :
    (valueOr input level kind.empty).Honours closing Text.IsClosed := by
  cases kind <;> exact .closedValue rfl fun _ => rfl

theorem closes_sequenceLength (kind : SequenceKind) :
    (sequenceLength kind).Honours closing Emitted.IsClosed :=
  .andThen (closes_sequence kind _ _) fun _ h depth => (h depth).text rfl rfl

theorem closes_sequenceIsEmpty (kind : SequenceKind) :
    (sequenceIsEmpty kind).Honours closing Emitted.IsClosed :=
  .andThen (closes_sequence kind _ _) fun _ h depth => (h depth).text rfl rfl

theorem isClosed_searchMethod {fromSide method : String}
    (h : searchMethod? fromSide = some method) : Text.IsClosed method := by
  unfold searchMethod? at h
  split at h <;> cases h <;> exact .literal rfl fun _ => rfl

theorem closes_sequenceIndexOf (kind : SequenceKind) :
    (sequenceIndexOf kind o n).Honours closing Emitted.IsClosed := by
  refine .anyThen fun fromSide => ?_
  split
  · exact trivial
  · next method known =>
      refine .andThen (.closedValue rfl fun _ => rfl) fun item hi => ?_
      refine .andThen (closes_sequence kind _ _) fun sequence hs => ?_
      have code : Text.IsClosed (sequence ++ "." ++ method ++ "(" ++ item ++ ")") :=
        isClosed_call (fun depth => ((hs depth).text rfl rfl).code (isClosed_searchMethod known)) hi
      dsimp only
      split
      · exact fun depth => (code depth).text rfl rfl
      · exact code

/-- The index before the end of a sequence. -/
theorem isClosed_beforeEnd {sequence at1 : String} (hs : Text.IsClosed sequence)
    (h : Text.IsClosed at1) : Text.IsClosed (beforeEnd sequence at1) :=
  fun depth => ((hs depth).text rfl rfl).code h

theorem closes_sliceStart {sequence : String} (h : Text.IsClosed sequence) (start : Position) :
    (sliceStart o sequence start).Honours closing Text.IsClosed := by
  unfold sliceStart
  split
  · exact closes_adjustedIndex _ _ _
  · exact .andThen (closes_adjustedIndex _ _ _) fun at1 h1 => isClosed_beforeEnd h h1
  · exact Text.IsClosed.literal rfl fun _ => rfl

theorem closes_directSlice (kind : SequenceKind) {sequence : String} (h : Text.IsClosed sequence)
    (start stop : Position) :
    (directSlice kind o sequence start stop).Honours closing Emitted.IsClosed := by
  have method : Text.IsClosed (sequence ++ "." ++ kind.sliceMethod) := by
    cases kind <;> exact fun depth => ((h depth).text rfl rfl).text rfl rfl
  refine .andThen (closes_sliceStart h start) fun at1 h1 => ?_
  dsimp only
  split
  · exact .andThen (closes_adjustedIndex _ _ _) fun at2 h2 => isClosed_call₂ method h1 h2
  · refine .andThen (closes_adjustedIndex _ _ _) fun at2 h2 => fun depth => ?_
    exact (((((((method depth).text rfl rfl).code h1).text rfl rfl).code h).text rfl rfl).code
      h2).text rfl rfl
  · exact isClosed_call method h1

theorem closes_helperSlice (kind : SequenceKind) {sequence : String} (h : Text.IsClosed sequence)
    (start stop : Position) :
    (helperSlice kind o sequence start stop).Honours closing Emitted.IsClosed := by
  refine .andThen (closes_adjustedIndex _ _ _) fun at1 h1 => ?_
  refine .andThen (closes_adjustedIndex _ _ _) fun at2 h2 => ?_
  refine .andThen (.closedHelper _) fun function hf => fun depth => ?_
  have name (position : Position) :
      Walks ⟨.literal false, depth + 1⟩ position.name ⟨.literal false, depth + 1⟩ := by
    cases position <;> exact .start rfl rfl
  exact ((((((((((hf depth).text rfl rfl).code h).text rfl rfl).append (name start)).text rfl
    rfl).code h1).text rfl rfl).append (name stop)).text rfl rfl).code h2 |>.text rfl rfl

theorem closes_sliceOf (kind : SequenceKind) {sequence : String} (h : Text.IsClosed sequence)
    (start stop : Position) :
    (sliceOf kind o sequence start stop).Honours closing Emitted.IsClosed := by
  unfold sliceOf
  split
  · exact closes_directSlice kind h start stop
  · exact closes_helperSlice kind h start stop

theorem closes_listsGetSublist : (listsGetSublist o n).Honours closing Emitted.IsClosed :=
  .anyThen fun _ => .andThen (closes_sequence .list _ _) fun _ h => closes_sliceOf .list h _ _

theorem closes_textGetSubstring : (textGetSubstring o n).Honours closing Emitted.IsClosed := by
  refine .anyThen fun ends => .andThen (closes_sequence .text _ _) fun text h => ?_
  split
  · exact h
  · exact closes_sliceOf .text h _ _

/-! ### Elements -/

theorem closes_emit (mode : ReadMode) {kept taken : String} (hk : Text.IsClosed kept)
    (ht : Text.IsClosed taken) : (mode.emit kept taken).Honours closing Emitted.IsClosed := by
  cases mode with
  | keep => exact hk
  | take => exact ht
  | drop => exact trivial

theorem isClosed_elementAt {list index : String} (hl : Text.IsClosed list)
    (hi : Text.IsClosed index) : Text.IsClosed (elementAt list index) :=
  fun depth => (((hl depth).text rfl rfl).code hi).text rfl rfl

theorem isClosed_removeAt {list index : String} (hl : Text.IsClosed list)
    (hi : Text.IsClosed index) : Text.IsClosed (removeAt list index) :=
  fun depth => (((hl depth).text rfl rfl).code hi).text rfl rfl

theorem isClosed_bindingOf {bound list : String} (hb : Text.IsClosed bound)
    (hl : Text.IsClosed list) : Text.IsClosed (bindingOf bound list) :=
  fun _ => ((((Walks.start rfl rfl).code hb).text rfl rfl).code hl).text rfl rfl

theorem closes_readBound (mode : ReadMode) {binding bound at1 : String}
    (binds : Text.IsClosed binding) (hb : Text.IsClosed bound) (h1 : Text.IsClosed at1) :
    (readBound mode binding bound at1).Honours closing Emitted.IsClosed := by
  have index := isClosed_beforeEnd hb h1
  cases mode with
  | drop => exact trivial
  | keep =>
      exact fun _ => ((((Walks.start rfl rfl).code binds).text rfl rfl).code
        (isClosed_elementAt hb index)).text rfl rfl
  | take =>
      exact fun _ => ((((Walks.start rfl rfl).code binds).text rfl rfl).code
        (isClosed_removeAt hb index)).text rfl rfl

/-- An element that is dropped leaves no value. -/
theorem closes_dropRandom (binding list : String) :
    (dropRandom binding list).Honours closing Emitted.IsClosed :=
  .anyThen fun _ => trivial

theorem closes_readHoisted (mode : ReadMode) (position : Position) {list : String}
    (h : Text.IsClosed list) :
    (readHoisted o mode position list).Honours closing Emitted.IsClosed := by
  unfold readHoisted
  split
  · exact .anyThen fun _ => .anyThen fun _ => closes_dropRandom _ _
  · refine .andThen (closes_adjustedIndex _ _ _) fun at1 h1 => ?_
    refine .andThen (.closedTemporary _) fun bound hb => ?_
    exact closes_readBound mode (isClosed_bindingOf hb h) hb h1

theorem closes_readDirect (mode : ReadMode) {list : String} (h : Text.IsClosed list)
    (position : Position) :
    (readDirect o mode list position).Honours closing Emitted.IsClosed := by
  cases position with
  | first =>
      exact closes_emit mode (h.append (.literal rfl fun _ => rfl))
        (isClosed_removeAt h (.literal rfl fun _ => rfl))
  | last =>
      exact closes_emit mode (h.append (.literal rfl fun _ => rfl))
        (h.append (.literal rfl fun _ => rfl))
  | fromStart =>
      refine .andThen (closes_adjustedIndex _ _ _) fun index hi => ?_
      exact closes_emit mode (isClosed_elementAt h hi) (isClosed_removeAt h hi)
  | fromEnd =>
      refine .andThen (closes_adjustedIndex _ _ _) fun at1 h1 => ?_
      have index := isClosed_beforeEnd h h1
      exact closes_emit mode (isClosed_elementAt h index) (isClosed_removeAt h index)
  | random =>
      refine .anyThen fun _ => ?_
      cases mode with
      | drop => exact closes_dropRandom _ _
      | keep | take => exact .andThen (.closedHelper _) fun name hname => isClosed_call hname h

theorem closes_listsGetIndex : (listsGetIndex o n).Honours closing Emitted.IsClosed := by
  refine .anyThen fun mode => .anyThen fun position => ?_
  refine .andThen (.closedValue rfl fun _ => rfl) fun list h => ?_
  split
  · exact closes_readHoisted mode position h
  · exact closes_readDirect mode h position

theorem closes_letterFromEnd {text at1 : String} (ht : Text.IsClosed text)
    (h : Text.IsClosed at1) : (letterFromEnd text at1).Honours closing Emitted.IsClosed :=
  .andThen (.closedHelper _) fun _ hname => isClosed_call₂ hname ht h

theorem closes_textCharAt : (textCharAt o n).Honours closing Emitted.IsClosed := by
  refine .anyThen fun position => .andThen (.closedValue rfl fun _ => rfl) fun text h => ?_
  split
  · exact isClosed_elementAt h (.literal rfl fun _ => rfl)
  · exact .andThen (closes_adjustedIndex _ _ _) fun index hi => isClosed_elementAt h hi
  · exact closes_letterFromEnd h (.literal rfl fun _ => rfl)
  · exact .andThen (closes_adjustedIndex _ _ _) fun at1 h1 => closes_letterFromEnd h h1
  · exact .anyThen fun _ => .andThen (.closedHelper _) fun name hname => isClosed_call hname h

end BlockScript.Template
