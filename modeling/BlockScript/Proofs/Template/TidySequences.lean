import BlockScript.Proofs.Template.TidyExpressions

/-! # Texts and lists are tidy

The scripts that read and write texts, lists and their elements keep the contract of tidy code. -/

namespace BlockScript.Template

open Script Number

variable {s : Scope} {o : Options} {n : Node}

/-! Lists. -/

theorem tidy_listsCreateEmpty : listsCreateEmpty.Honours s.tidy s.IsCode :=
  Surface.IsExpression.literal rfl (by decide)

/-- Code in brackets. -/
theorem isExpression_bracketed {separator after : String} {codes : List String}
    (hs : isSpacer [] separator = true) (ha : isEnding [] after = true)
    (h : ∀ code ∈ codes, s.IsExpression code) :
    s.IsExpression ("[" ++ separator.intercalate codes ++ after) := by
  have items : MentionsOnly s.modules s.view (separator.intercalate codes) :=
    (MentionsOnly.intercalate_literal hs).mpr fun code hc => (h code hc).seen
  constructor
  · simp
  · rw [MentionsOnly.append_literal ha]
    simp (disch := (apply joins_of_chars rfl; decide)) [items]

theorem tidy_listsCreateWith : (listsCreateWith n).Honours s.tidy s.IsCode := by
  refine .andThen (.numberedValues_literal rfl (by decide)) fun items h => ?_
  exact isExpression_bracketed (joins_of_chars rfl (by decide)) (joins_of_chars rfl (by decide)) h

theorem tidy_listsRepeat : listsRepeat.Honours s.tidy s.IsCode := by
  refine .andThen (.valueOr_literal rfl (by decide)) fun item hi => ?_
  refine .andThen (.valueOr_literal rfl (by decide)) fun count hc => ?_
  constructor
  · simp
  · simp (disch := (apply joins_of_chars rfl; decide)) [hi.mentions, hc.mentions]

theorem tidy_listsSort (plain : n.Plain s.texts) : (listsSort n).Honours s.tidy s.IsCode := by
  refine .andThen (tidy_requiredField plain rfl (by decide)) fun sortOrder h => ?_
  split
  · next known =>
      have order (v : View) : MentionsOnly s.modules v sortOrder := by
        have hmem : sortOrder ∈ sortOrders := by simpa using known
        simp only [sortOrders, List.mem_cons, List.not_mem_nil, or_false] at hmem
        rcases hmem with rfl | rfl | rfl <;> exact .literal (joins_of_chars rfl (by decide))
      have direction (v : View) : MentionsOnly s.modules v (sortDirection n) := by
        unfold sortDirection
        split <;> exact .literal (joins_of_chars rfl (by decide))
      refine .andThen (.valueOr_literal rfl (by decide)) fun list hl => ?_
      refine .andThen (.helperName .sortList nofun) fun name hname => ?_
      constructor
      · simp
      · simp (disch := (apply joins_of_chars rfl; decide)) [hname.mentions, hl.mentions, order,
          direction]
  · exact plain.unknownField rfl (by decide) h

theorem tidy_splitMethod {mode method empty : String}
    (h : splitMethod? mode = some (method, empty)) :
    isPlain [] method = true ∧ ∀ s : Surface, s.IsExpression empty := by
  unfold splitMethod? at h
  split at h <;> cases h <;>
    exact ⟨joins_of_chars rfl (by decide), fun _ => .literal rfl (by decide)⟩

theorem tidy_listsSplit (plain : n.Plain s.texts) : (listsSplit n).Honours s.tidy s.IsCode := by
  refine .andThen (tidy_requiredField plain rfl (by decide)) fun mode hm => ?_
  split
  · exact plain.unknownField rfl (by decide) hm
  · next method empty known =>
      obtain ⟨hmethod, hempty⟩ := tidy_splitMethod known
      refine .andThen (.valueOr_always hempty) fun input hi => ?_
      refine .andThen (.valueOr_literal rfl (by decide)) fun delimiter hd => ?_
      constructor
      · simp
      · simp (disch := (apply joins_of_chars rfl; decide)) [hi.mentions, hd.mentions,
          MentionsOnly.literal hmethod]

theorem tidy_listsReverse : listsReverse.Honours s.tidy s.IsCode := by
  refine .andThen (.valueOr_literal rfl (by decide)) fun list h => ?_
  constructor
  · simp
  · simp (disch := (apply joins_of_chars rfl; decide)) [h.mentions]

/-! Texts. -/

theorem tidy_textLiteral (plain : n.Plain s.texts) :
    (textLiteral n).Honours s.tidy s.IsCode :=
  isExpression_quote (plain.fieldText "TEXT")

theorem tidy_textMultiline (plain : n.Plain s.texts) :
    (textMultiline n).Honours s.tidy s.IsCode := by
  refine ⟨?_, (plain.fieldText "TEXT").multilineQuote s.view⟩
  -- The first line is quoted, so there is a quote at least.
  have hlines : Text.lines (n.fieldText "TEXT") ≠ [] := by
    simp [Text.lines, Text.splitLines_ne_nil]
  obtain ⟨line, rest, heq⟩ := List.exists_cons_of_ne_nil hlines
  unfold Text.multilineQuote
  cases rest with
  | nil => simp [heq, quote_ne_empty]
  | cons second more => simp [heq, String.intercalate_cons_cons, quote_ne_empty]

theorem tidy_textJoin : (textJoin n).Honours s.tidy s.IsCode := by
  unfold textJoin
  split
  · exact Surface.IsExpression.literal rfl (by decide)
  · refine .andThen (.valueOr_literal rfl (by decide)) fun item h => ?_
    constructor
    · simp
    · simp (disch := (apply joins_of_chars rfl; decide)) [h.mentions]
  · refine .andThen (.numberedValues_literal rfl (by decide)) fun items h => ?_
    exact isExpression_bracketed (joins_of_chars rfl (by decide)) (joins_of_chars rfl (by decide)) h

theorem tidy_textAppend (plain : n.Plain s.texts) : (textAppend n).Honours s.tidy s.IsCode := by
  refine .andThen (.variableName (plain.fieldText "VAR").to_whole) fun target h => ?_
  refine .andThen (.valueOr_literal rfl (by decide)) fun text ht => ?_
  refine Surface.IsStatements.of_append ?_ rfl (by decide)
  simp (disch := (apply joins_of_chars rfl; decide)) [h.mentions, ht.mentions]

theorem tidy_textMethod {call : String} (h : isEnding [] call = true) :
    (textMethod call).Honours s.tidy s.IsCode := by
  refine .andThen (.valueOr_literal rfl (by decide)) fun text ht => ?_
  refine ⟨by simp [ht.nonempty], ?_⟩
  rw [MentionsOnly.append_literal h]
  exact ht.seen

theorem tidy_textChangeCase (plain : n.Plain s.texts) :
    (textChangeCase n).Honours s.tidy s.IsCode := by
  refine .andThen (tidy_requiredField plain rfl (by decide)) fun letters h => ?_
  split
  · exact tidy_textMethod (joins_of_chars rfl (by decide))
  · exact tidy_textMethod (joins_of_chars rfl (by decide))
  · refine .andThen (.valueOr_literal rfl (by decide)) fun text ht => ?_
    refine .andThen (.helperName .titleCase nofun) fun name hname => ?_
    exact isExpression_call hname.toIsExpression ht
  · exact plain.unknownField rfl (by decide) h

theorem tidy_textTrim (plain : n.Plain s.texts) : (textTrim n).Honours s.tidy s.IsCode := by
  refine .andThen (tidy_requiredField plain rfl (by decide)) fun side h => ?_
  split
  · exact tidy_textMethod (joins_of_chars rfl (by decide))
  · exact tidy_textMethod (joins_of_chars rfl (by decide))
  · exact tidy_textMethod (joins_of_chars rfl (by decide))
  · exact plain.unknownField rfl (by decide) h

theorem tidy_textPrint : textPrint.Honours s.tidy s.IsCode := by
  refine .andThen (.valueOr_literal rfl (by decide)) fun message h => ?_
  refine Surface.IsStatements.of_append ?_ rfl (by decide)
  simp (disch := (apply joins_of_chars rfl; decide)) [h.mentions]

theorem tidy_asksForNumber (plain : n.Plain s.texts) :
    (asksForNumber n).Honours s.tidy fun _ => True := by
  unfold asksForNumber
  split
  · trivial
  · trivial
  · trivial
  · next other _ _ h => exact plain.unknownField rfl (by decide) h

theorem tidy_promptMessage (plain : n.Plain s.texts) :
    (promptMessage n).Honours s.tidy s.IsExpression := by
  unfold promptMessage
  split
  · next text h => exact isExpression_quote (plain.fieldValue h)
  · exact .valueOr_literal rfl (by decide)

theorem tidy_textPrompt (plain : n.Plain s.texts) : (textPrompt n).Honours s.tidy s.IsCode := by
  refine .andThen (tidy_asksForNumber plain) fun isNumber _ => ?_
  refine .andThen (.requireModule .html) fun _ html => ?_
  refine .andThen (tidy_promptMessage plain) fun message h => ?_
  have code : MentionsOnly s.modules s.view ("Html.window.prompt(" ++ message ++ ", '')") := by
    simp (disch := (apply joins_of_chars rfl; decide)) [MentionsOnly.opening_append html,
      h.mentions]
  dsimp only
  split
  · refine .andThen (.requireModule .math) fun _ math => ?_
    refine ⟨by simp, ?_⟩
    rw [MentionsOnly.append_literal (joins_of_chars rfl (by decide)),
      MentionsOnly.opening_append math (joins_of_chars rfl (by decide))]
    exact code
  · exact ⟨by simp, code⟩

theorem tidy_textCount : textCount.Honours s.tidy s.IsCode := by
  refine .andThen (.valueOr_literal rfl (by decide)) fun text ht => ?_
  refine .andThen (.valueOr_literal rfl (by decide)) fun part hp => ?_
  refine .andThen (.helperName .countMatches nofun) fun name hname => ?_
  exact isExpression_call₂ hname.toIsExpression ht hp

theorem tidy_textReplace : textReplace.Honours s.tidy s.IsCode := by
  refine .andThen (.valueOr_literal rfl (by decide)) fun text ht => ?_
  refine .andThen (.valueOr_literal rfl (by decide)) fun old ho => ?_
  refine .andThen (.valueOr_literal rfl (by decide)) fun new hn => ?_
  constructor
  · simp
  · simp (disch := (apply joins_of_chars rfl; decide)) [ht.mentions, ho.mentions, hn.mentions]

theorem tidy_textReverse : textReverse.Honours s.tidy s.IsCode := by
  refine .andThen (.valueOr_literal rfl (by decide)) fun text h => ?_
  constructor
  · simp
  · simp (disch := (apply joins_of_chars rfl; decide)) [h.mentions]

/-! Positions and indices. -/

theorem tidy_positionOr (plain : n.Plain s.texts) {field : String} {cs : List Char}
    (literal : field = String.ofList cs) (h : isHarmless cs = true) (default : Option Position) :
    (positionOr n field default).Honours s.tidy fun _ => True := by
  unfold positionOr
  split
  · trivial
  · exact plain.missingField literal h
  · next given _ hg =>
      split
      · trivial
      · exact plain.unknownField literal h hg

theorem isExpression_firstIndex (s : Surface) : s.IsExpression o.firstIndex := by
  unfold Options.firstIndex
  split <;> exact .literal rfl (by decide)

theorem isExpression_shiftedCode {code : String} (h : s.IsExpression code) (shift : Int)
    (required : Precedence) : s.IsExpression (shiftedCode code shift required) := by
  have sum {sign amount : String} (hs : isSpacer [] sign = true) (ha : s.IsExpression amount) :
      s.IsExpression (code ++ sign ++ amount) := by
    refine ⟨by simp [h.nonempty], ?_⟩
    rw [MentionsOnly.append_literal_append hs]
    exact ⟨h.seen, ha.seen⟩
  unfold shiftedCode
  split
  · exact (sum (joins_of_chars rfl (by decide)) (isExpression_toString_int shift)).wrap _ _
  · split
    · exact (sum (joins_of_chars rfl (by decide)) (isExpression_toString_int (-shift))).wrap _ _
    · exact h

theorem isExpression_shiftIndex {code : String} (h : s.IsExpression code) (shift : Int)
    (required : Precedence) : s.IsExpression (shiftIndex code shift required) := by
  unfold shiftIndex
  split
  · exact isExpression_toString_int _
  · exact isExpression_shiftedCode h shift required

theorem tidy_adjustedIndex (input : String) (delta : Int) (required : Precedence) :
    (adjustedIndex o input delta required).Honours s.tidy s.IsExpression := by
  refine .andThen (.valueOr_always isExpression_firstIndex) fun code h => ?_
  exact isExpression_shiftIndex h _ _

/-! Sequences. -/

theorem isExpression_empty (kind : SequenceKind) (s : Surface) : s.IsExpression kind.empty := by
  cases kind <;> exact .literal rfl (by decide)

theorem tidy_sequence (kind : SequenceKind) (input : String) (level : Precedence) :
    (valueOr input level kind.empty).Honours s.tidy s.IsExpression :=
  .valueOr_always (isExpression_empty kind)

theorem tidy_sequenceLength (kind : SequenceKind) :
    (sequenceLength kind).Honours s.tidy s.IsCode := by
  refine .andThen (tidy_sequence kind _ _) fun sequence h => ?_
  constructor
  · simp
  · simp (disch := (apply joins_of_chars rfl; decide)) [h.mentions]

theorem tidy_sequenceIsEmpty (kind : SequenceKind) :
    (sequenceIsEmpty kind).Honours s.tidy s.IsCode := by
  refine .andThen (tidy_sequence kind _ _) fun sequence h => ?_
  constructor
  · simp
  · simp (disch := (apply joins_of_chars rfl; decide)) [h.mentions]

theorem isPlain_searchMethod {fromSide method : String}
    (h : searchMethod? fromSide = some method) : isPlain [] method = true := by
  unfold searchMethod? at h
  split at h <;> cases h <;> exact joins_of_chars rfl (by decide)

theorem tidy_sequenceIndexOf (plain : n.Plain s.texts) (kind : SequenceKind) :
    (sequenceIndexOf kind o n).Honours s.tidy s.IsCode := by
  refine .andThen (tidy_requiredField plain rfl (by decide)) fun fromSide hside => ?_
  split
  · exact plain.unknownField rfl (by decide) hside
  · next method known =>
      refine .andThen (.valueOr_literal rfl (by decide)) fun item hi => ?_
      refine .andThen (tidy_sequence kind _ _) fun sequence hs => ?_
      have code : s.IsExpression (sequence ++ "." ++ method ++ "(" ++ item ++ ")") := by
        constructor
        · simp
        · simp (disch := (apply joins_of_chars rfl; decide)) [hs.mentions, hi.mentions,
            MentionsOnly.literal (isPlain_searchMethod known)]
      dsimp only
      split
      · constructor
        · simp
        · rw [MentionsOnly.append_literal (joins_of_chars rfl (by decide))]
          exact code.seen
      · exact code

theorem tidy_positionWith (plain : n.Plain s.texts) {field : String} {cs : List Char}
    (literal : field = String.ofList cs) (h : isHarmless cs = true) (position : Position)
    (holds : Bool) : (positionWith n field position holds).Honours s.tidy fun _ => True := by
  unfold positionWith
  split
  · trivial
  · refine plain.unknownOption literal h fun text ht => ?_
    obtain rfl := Option.some.inj ht
    cases position <;> exact .literal (joins_of_chars rfl (by decide))

theorem tidy_sliceEnds (plain : n.Plain s.texts) :
    (sliceEnds n).Honours s.tidy fun _ => True := by
  refine .andThen (tidy_positionOr plain rfl (by decide) _) fun start _ => ?_
  refine .andThen (tidy_positionOr plain rfl (by decide) _) fun stop _ => ?_
  refine .andThen (tidy_positionWith plain rfl (by decide) _ _) fun _ _ => ?_
  exact .andThen (tidy_positionWith plain rfl (by decide) _ _) fun _ _ => trivial

/-- The index before the end of a sequence. -/
theorem isExpression_beforeEnd {sequence at1 : String} (hs : s.IsExpression sequence)
    (h : s.IsExpression at1) : s.IsExpression (beforeEnd sequence at1) := by
  constructor
  · simp [beforeEnd]
  · simp (disch := (apply joins_of_chars rfl; decide)) [beforeEnd, hs.mentions, h.mentions]

theorem tidy_sliceStart {sequence : String} (h : s.IsExpression sequence) (start : Position) :
    (sliceStart o sequence start).Honours s.tidy s.IsExpression := by
  unfold sliceStart
  split
  · exact tidy_adjustedIndex _ _ _
  · refine .andThen (tidy_adjustedIndex _ _ _) fun at1 h1 => ?_
    exact isExpression_beforeEnd h h1
  · exact Surface.IsExpression.literal rfl (by decide)

theorem tidy_directSlice (kind : SequenceKind) {sequence : String} (h : s.IsExpression sequence)
    (start stop : Position) : (directSlice kind o sequence start stop).Honours s.tidy s.IsCode := by
  have method (v : View) : MentionsOnly s.modules v kind.sliceMethod := by
    cases kind <;> exact .literal (joins_of_chars rfl (by decide))
  refine .andThen (tidy_sliceStart h start) fun at1 h1 => ?_
  dsimp only
  split
  · refine .andThen (tidy_adjustedIndex _ _ _) fun at2 h2 => ?_
    constructor
    · simp
    · simp (disch := (apply joins_of_chars rfl; decide)) [h.mentions, h1.mentions, h2.mentions,
        method]
  · refine .andThen (tidy_adjustedIndex _ _ _) fun at2 h2 => ?_
    constructor
    · simp
    · simp (disch := (apply joins_of_chars rfl; decide)) [h.mentions, h1.mentions, h2.mentions,
        method]
  · constructor
    · simp
    · simp (disch := (apply joins_of_chars rfl; decide)) [h.mentions, h1.mentions, method]

theorem tidy_helperSlice (kind : SequenceKind) {sequence : String} (h : s.IsExpression sequence)
    (start stop : Position) : (helperSlice kind o sequence start stop).Honours s.tidy s.IsCode := by
  have name (position : Position) (v : View) : MentionsOnly s.modules v position.name := by
    cases position <;> exact .literal (joins_of_chars rfl (by decide))
  have modules : ∀ m ∈ kind.sliceHelper.modules, s.modules m := by
    cases kind <;> exact nofun
  refine .andThen (tidy_adjustedIndex _ _ _) fun at1 h1 => ?_
  refine .andThen (tidy_adjustedIndex _ _ _) fun at2 h2 => ?_
  refine .andThen (.helperName _ modules) fun function hf => ?_
  constructor
  · simp
  · simp (disch := (apply joins_of_chars rfl; decide)) [hf.mentions, h.mentions, h1.mentions,
      h2.mentions, name]

theorem tidy_sliceOf (kind : SequenceKind) {sequence : String} (h : s.IsExpression sequence)
    (start stop : Position) : (sliceOf kind o sequence start stop).Honours s.tidy s.IsCode := by
  unfold sliceOf
  split
  · exact tidy_directSlice kind h start stop
  · exact tidy_helperSlice kind h start stop

theorem tidy_listsGetSublist (plain : n.Plain s.texts) :
    (listsGetSublist o n).Honours s.tidy s.IsCode := by
  refine .andThen (tidy_sliceEnds plain) fun ends _ => ?_
  exact .andThen (tidy_sequence .list _ _) fun list h => tidy_sliceOf .list h _ _

theorem tidy_textGetSubstring (plain : n.Plain s.texts) :
    (textGetSubstring o n).Honours s.tidy s.IsCode := by
  refine .andThen (tidy_sliceEnds plain) fun ends _ => ?_
  refine .andThen (tidy_sequence .text _ _) fun text h => ?_
  split
  · exact h
  · exact tidy_sliceOf .text h _ _

/-! Elements. -/

theorem tidy_readMode (plain : n.Plain s.texts) :
    (readMode n).Honours s.tidy fun _ => True := by
  unfold readMode
  split
  · trivial
  · trivial
  · trivial
  · trivial
  · next other _ _ _ h => exact plain.unknownField rfl (by decide) h

theorem tidy_writeMode (plain : n.Plain s.texts) :
    (writeMode n).Honours s.tidy fun _ => True := by
  unfold writeMode
  split
  · trivial
  · trivial
  · trivial
  · next other _ _ h => exact plain.unknownField rfl (by decide) h

theorem tidy_emit (mode : ReadMode) {kept taken : String} (hk : s.IsExpression kept)
    (ht : s.IsExpression taken) : (mode.emit kept taken).Honours s.tidy s.IsCode := by
  cases mode with
  | keep => exact hk
  | take => exact ht
  | drop =>
      refine Surface.IsStatements.of_append ?_ rfl (by decide)
      simp (disch := (apply joins_of_chars rfl; decide)) [ht.mentions]

theorem isExpression_elementAt {list index : String} (hl : s.IsExpression list)
    (hi : s.IsExpression index) : s.IsExpression (elementAt list index) := by
  constructor
  · simp [elementAt]
  · simp (disch := (apply joins_of_chars rfl; decide)) [elementAt, hl.mentions, hi.mentions]

theorem isExpression_removeAt {list index : String} (hl : s.IsExpression list)
    (hi : s.IsExpression index) : s.IsExpression (removeAt list index) := by
  constructor
  · simp [removeAt]
  · simp (disch := (apply joins_of_chars rfl; decide)) [removeAt, hl.mentions, hi.mentions]

theorem isStatements_bindingOf {bound list : String} (hb : s.IsExpression bound)
    (hl : s.IsExpression list) : s.IsStatements (bindingOf bound list ++ "\n") := by
  refine .of_append ?_ rfl (by decide)
  simp (disch := (apply joins_of_chars rfl; decide)) [bindingOf, hb.mentions, hl.mentions]

theorem tidy_dropRandom {binding list : String} (imported : ∀ m ∈ [Module.math], s.modules m)
    (hb : s.IsStatements binding) (hl : s.IsExpression list) :
    (dropRandom binding list).Honours s.tidy s.IsCode := by
  refine .andThen (.temporaryName rfl (by decide)) fun index hi => ?_
  refine Surface.IsStatements.of_append ?_ rfl (by decide)
  rw [String.append_assoc, String.append_assoc, hb.append_iff]
  simp (disch := (apply joins_of_chars rfl; decide)) [pickIndex, removeAt, ← String.append_assoc,
    MentionsOnly.append_spacer_append imported, hi.mentions, hl.mentions]

theorem tidy_readBound (mode : ReadMode) {bound list at1 : String} (hb : s.IsExpression bound)
    (hl : s.IsExpression list) (h1 : s.IsExpression at1) :
    (readBound mode (bindingOf bound list) bound at1).Honours s.tidy s.IsCode := by
  have removed := isExpression_removeAt hb (isExpression_beforeEnd hb h1)
  have element := isExpression_elementAt hb (isExpression_beforeEnd hb h1)
  have binding : MentionsOnly s.modules s.view (bindingOf bound list) ∧
      MentionsOnly s.modules .whole (bindingOf bound list) := by
    simp (disch := (apply joins_of_chars rfl; decide)) [bindingOf, hb.mentions, hl.mentions]
  unfold readBound
  cases mode with
  | drop =>
      refine Surface.IsStatements.of_append ?_ rfl (by decide)
      simp (disch := (apply joins_of_chars rfl; decide)) [binding, removed.mentions]
  | keep =>
      constructor
      · simp
      · simp (disch := (apply joins_of_chars rfl; decide)) [binding, element.mentions]
  | take =>
      constructor
      · simp
      · simp (disch := (apply joins_of_chars rfl; decide)) [binding, removed.mentions]

theorem tidy_readHoisted (mode : ReadMode) (position : Position) {list : String}
    (h : s.IsExpression list) : (readHoisted o mode position list).Honours s.tidy s.IsCode := by
  unfold readHoisted
  split
  · refine .andThen (.requireModule .math) fun _ imported => ?_
    refine .andThen (.temporaryName rfl (by decide)) fun bound hb => ?_
    exact tidy_dropRandom imported (isStatements_bindingOf hb.toIsExpression h) hb.toIsExpression
  · refine .andThen (tidy_adjustedIndex _ _ _) fun at1 h1 => ?_
    refine .andThen (.temporaryName rfl (by decide)) fun bound hb => ?_
    exact tidy_readBound mode hb.toIsExpression h h1

theorem tidy_readDirect (mode : ReadMode) {list : String} (h : s.IsExpression list)
    (position : Position) : (readDirect o mode list position).Honours s.tidy s.IsCode := by
  have member {name : String} (hn : isEnding [] name = true) : s.IsExpression (list ++ name) := by
    refine ⟨by simp [h.nonempty], ?_⟩
    rw [MentionsOnly.append_literal hn]
    exact h.seen
  have zero : s.IsExpression "0" := .literal rfl (by decide)
  cases position with
  | first =>
      exact tidy_emit mode (member (joins_of_chars rfl (by decide))) (isExpression_removeAt h zero)
  | last =>
      exact tidy_emit mode (member (joins_of_chars rfl (by decide)))
        (member (joins_of_chars rfl (by decide)))
  | fromStart =>
      refine .andThen (tidy_adjustedIndex _ _ _) fun index hi => ?_
      exact tidy_emit mode (isExpression_elementAt h hi) (isExpression_removeAt h hi)
  | fromEnd =>
      refine .andThen (tidy_adjustedIndex _ _ _) fun at1 h1 => ?_
      have index := isExpression_beforeEnd h h1
      exact tidy_emit mode (isExpression_elementAt h index) (isExpression_removeAt h index)
  | random =>
      refine .andThen (.requireModule .math) fun _ imported => ?_
      cases mode with
      | drop => exact tidy_dropRandom imported .empty h
      | keep =>
          refine .andThen (.helperName .randomItem imported) fun name hname => ?_
          exact isExpression_call hname.toIsExpression h
      | take =>
          refine .andThen (.helperName .removeRandomItem imported) fun name hname => ?_
          exact isExpression_call hname.toIsExpression h

theorem tidy_listsGetIndex (plain : n.Plain s.texts) :
    (listsGetIndex o n).Honours s.tidy s.IsCode := by
  refine .andThen (tidy_readMode plain) fun mode _ => ?_
  refine .andThen (tidy_positionOr plain rfl (by decide) _) fun position _ => ?_
  refine .andThen (.valueOr_literal rfl (by decide)) fun list h => ?_
  split
  · exact tidy_readHoisted mode position h
  · exact tidy_readDirect mode h position

theorem tidy_bindUnlessBare {list : String} (h : s.IsExpression list) :
    (bindUnlessBare list).Honours s.tidy fun bound =>
      s.IsStatements bound.1 ∧ s.IsExpression bound.2 := by
  unfold bindUnlessBare
  split
  · exact ⟨.empty, h⟩
  · refine .andThen (.temporaryName rfl (by decide)) fun bound hb => ?_
    exact ⟨isStatements_bindingOf hb.toIsExpression h, hb.toIsExpression⟩

/-- The statement that writes at an index may stand behind a binding. -/
theorem isStatements_write (mode : WriteMode) {binding list index value : String}
    (hb : s.IsStatements binding) (hl : s.IsExpression list) (hi : s.IsExpression index)
    (hv : s.IsExpression value) : s.IsStatements (binding ++ mode.write list index value) := by
  cases mode with
  | replace =>
      rw [WriteMode.write, ← String.append_assoc]
      refine Surface.IsStatements.of_append ?_ rfl (by decide)
      rw [MentionsOnly.append_literal (joins_of_chars rfl (by decide)), hb.append_iff]
      simp (disch := (apply joins_of_chars rfl; decide)) [elementAt, hl.mentions, hi.mentions,
        hv.mentions]
  | shift =>
      rw [WriteMode.write, ← String.append_assoc]
      refine Surface.IsStatements.of_append ?_ rfl (by decide)
      rw [MentionsOnly.append_literal (joins_of_chars rfl (by decide)), hb.append_iff]
      simp (disch := (apply joins_of_chars rfl; decide)) [hl.mentions, hi.mentions, hv.mentions]

theorem tidy_writeElement (mode : WriteMode) {list value : String} (hl : s.IsExpression list)
    (hv : s.IsExpression value) (position : Position) :
    (writeElement o mode list value position).Honours s.tidy s.IsStatements := by
  have write {list index : String} (hl : s.IsExpression list) (hi : s.IsExpression index) :
      s.IsStatements (mode.write list index value) := by
    have whole := isStatements_write mode .empty hl hi hv
    rwa [String.empty_append] at whole
  cases position with
  | first => exact write hl (.literal rfl (by decide))
  | last =>
      cases mode with
      | replace =>
          refine .andThen (tidy_bindUnlessBare hl) fun bound hb => ?_
          exact isStatements_write .replace hb.1 hb.2
            (isExpression_beforeEnd hb.2 (.literal rfl (by decide))) hv
      | shift =>
          refine Surface.IsStatements.of_append ?_ rfl (by decide)
          simp (disch := (apply joins_of_chars rfl; decide)) [hl.mentions, hv.mentions]
  | fromStart => exact .andThen (tidy_adjustedIndex _ _ _) fun index hi => write hl hi
  | fromEnd =>
      refine .andThen (tidy_adjustedIndex _ _ _) fun at1 h1 => ?_
      refine .andThen (tidy_bindUnlessBare hl) fun bound hb => ?_
      exact isStatements_write mode hb.1 hb.2 (isExpression_beforeEnd hb.2 h1) hv
  | random =>
      refine .andThen (.requireModule .math) fun _ imported => ?_
      refine .andThen (tidy_bindUnlessBare hl) fun bound hb => ?_
      refine .andThen (.temporaryName rfl (by decide)) fun index hi => ?_
      have picks : s.IsStatements (bound.1 ++ pickIndex index bound.2) := by
        refine hb.1.append (.of_append ?_ rfl (by decide))
        simp (disch := (apply joins_of_chars rfl; decide)) [
          MentionsOnly.append_spacer_append imported, hi.mentions, hb.2.mentions]
      exact isStatements_write mode picks hb.2 hi.toIsExpression hv

theorem tidy_listsSetIndex (plain : n.Plain s.texts) :
    (listsSetIndex o n).Honours s.tidy s.IsCode := by
  refine .andThen (tidy_writeMode plain) fun mode _ => ?_
  refine .andThen (tidy_positionOr plain rfl (by decide) _) fun position _ => ?_
  refine .andThen (.valueOr_literal rfl (by decide)) fun list hl => ?_
  refine .andThen (.valueOr_literal rfl (by decide)) fun value hv => ?_
  exact .andThen (tidy_writeElement mode hl hv position) fun code h => h

theorem tidy_letterFromEnd {text at1 : String} (ht : s.IsExpression text)
    (h : s.IsExpression at1) : (letterFromEnd text at1).Honours s.tidy s.IsCode := by
  refine .andThen (.helperName .letterFromEnd nofun) fun name hname => ?_
  exact isExpression_call₂ hname.toIsExpression ht h

theorem tidy_textCharAt (plain : n.Plain s.texts) :
    (textCharAt o n).Honours s.tidy s.IsCode := by
  refine .andThen (tidy_positionOr plain rfl (by decide) _) fun position _ => ?_
  refine .andThen (.valueOr_literal rfl (by decide)) fun text h => ?_
  split
  · exact isExpression_elementAt h (.literal rfl (by decide))
  · refine .andThen (tidy_adjustedIndex _ _ _) fun index hi => ?_
    exact isExpression_elementAt h hi
  · exact tidy_letterFromEnd h (.literal rfl (by decide))
  · exact .andThen (tidy_adjustedIndex _ _ _) fun at1 h1 => tidy_letterFromEnd h h1
  · refine .andThen (.requireModule .math) fun _ imported => ?_
    refine .andThen (.helperName .randomLetter imported) fun name hname => ?_
    exact isExpression_call hname.toIsExpression h

end BlockScript.Template
