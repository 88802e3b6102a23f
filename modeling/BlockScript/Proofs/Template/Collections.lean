import BlockScript.Proofs.Rendering.Chains
import BlockScript.Proofs.Rendering.Pasting

/-! # A compound collection is evaluated once

Four kinds of blocks take an element or a slice out of a collection, or write into it. Where the
code of the collection is more than one word, it may have effects, and it is pasted once, whatever
the block does with it: the list is bound to a temporary, or passed to a helper function, wherever
it is needed again. -/

namespace BlockScript

open Template Script

/-- The input with the collection that a block works on, and what the collection is. -/
def Kind.collection? : Kind → Option (String × SequenceKind)
  | .listsGetIndex => some ("VALUE", .list)
  | .listsSetIndex => some ("LIST", .list)
  | .listsGetSublist => some (SequenceKind.list.sliceInput, .list)
  | .textGetSubstring => some (SequenceKind.text.sliceInput, .text)
  | _ => none

/-- The fields of such a block show options that it has: what to do with an element, and where the
element or the ends of the slice are. -/
def Kind.HasOptions (n : Node) : Kind → Prop
  | .listsGetIndex =>
      n.field "MODE" ∈ [none, some "GET", some "GET_REMOVE", some "REMOVE"] ∧
        ∀ place ∈ n.field "WHERE", ∃ position : Position, place = position.name
  | .listsSetIndex =>
      n.field "MODE" ∈ [none, some "SET", some "INSERT"] ∧
        ∀ place ∈ n.field "WHERE", ∃ position : Position, place = position.name
  | .listsGetSublist | .textGetSubstring =>
      (∃ start : Position, start.startsSlice ∧ n.field "WHERE1" = some start.name) ∧
        ∃ stop : Position, stop.endsSlice ∧ n.field "WHERE2" = some stop.name
  | _ => True

/-- Code that may not be evaluated twice. -/
def Template.SequenceKind.IsCompound (sequence : SequenceKind) (code : String) : Prop :=
  sequence.isRepeatable code = false

namespace Script

variable {input : String} {sort : String → Prop} {names : List String} {o : Options}

theorem Pastes.congr {family family' : String → Script Emitted}
    (h : Pastes input sort names family') (same : ∀ text, sort text → family text = family' text) :
    Pastes input sort names family := by
  cases h with
  | done p binds same' => exact .done p binds fun text sorted =>
      (same text sorted).trans (same' text sorted)
  | value next apart same' rest => exact .value next apart (fun text sorted =>
      (same text sorted).trans (same' text sorted)) rest
  | temporary base next same' rest => exact .temporary base next (fun text sorted =>
      (same text sorted).trans (same' text sorted)) rest
  | helper h next same' rest => exact .helper h next (fun text sorted =>
      (same text sorted).trans (same' text sorted)) rest
  | require m next same' rest => exact .require m next (fun text sorted =>
      (same text sorted).trans (same' text sorted)) rest

/-- Code that names the text once, and no temporary. -/
theorem pastes_value (front back : String) (level : Precedence) :
    Pastes input sort [] fun text => done (.value (front ++ text ++ back) level) :=
  .done ⟨front, back, some level, []⟩ (fun _ => .nothing _) fun _ _ => rfl

theorem pastes_statement (front back : String) :
    Pastes input sort [] fun text => done (.statement (front ++ text ++ back)) :=
  .done ⟨front, back, none, []⟩ (fun _ => .nothing _) fun _ _ => rfl

/-- An index is in an input of its own. -/
theorem Pastes.adjustedIndex (o : Options) {other : String} (delta : Int) (required : Precedence)
    (next : String → String → Script Emitted) (apart : other ≠ input)
    (rest : ∀ index, Pastes input sort names (next index)) :
    Pastes input sort names fun text =>
      adjustedIndex o other delta required >>= fun index => next index text :=
  .value (fun code => next (shiftIndex (code.getD o.firstIndex) (indexShift o delta) required))
    apart (fun _ _ => rfl) fun _ => rest _

/-! ### Elements -/

theorem pastes_emit (mode : ReadMode) (kept taken : String) :
    Pastes input sort [] fun list => mode.emit (list ++ kept) (list ++ taken) := by
  cases mode with
  | keep =>
      apply (pastes_value "" kept .unaryPostfix).congr
      intro list _
      rw [String.empty_append]
      rfl
  | take =>
      apply (pastes_value "" taken .unaryPostfix).congr
      intro list _
      rw [String.empty_append]
      rfl
  | drop =>
      apply (pastes_statement "" (taken ++ ";\n")).congr
      intro list _
      rw [String.empty_append, ← String.append_assoc]
      rfl

/-- Code with the text bound to a temporary in front. -/
theorem pastes_bound {opening : String} (brace : opening = "" ∨ opening = "\x7b ")
    (bound rest : String) (level? : Option Precedence) {family : String → Script Emitted}
    (same : ∀ text, sort text → family text = done (Pasting.emit
      ⟨opening ++ "List " ++ bound ++ " = ", ";" ++ rest, level?, [bound]⟩ text)) :
    Pastes input sort [bound] family :=
  .done ⟨opening ++ "List " ++ bound ++ " = ", ";" ++ rest, level?, [bound]⟩
    (fun text => by
      have shape : BindsFirst text [bound] _ := .list brace bound rest
      simpa [Pasting.code, bindingOf, String.append_assoc] using shape) same

theorem pastes_boundStatement (bound rest : String) :
    Pastes input sort [bound] fun list =>
      done (.statement (bindingOf bound list ++ rest)) := by
  apply pastes_bound (.inl rfl) bound rest none
  intro list _
  simp [Pasting.emit, Pasting.code, bindingOf, String.append_assoc]

theorem pastes_boundValue (bound rest : String) (level : Precedence) :
    Pastes input sort [bound] fun list =>
      done (.value ("\x7b " ++ bindingOf bound list ++ rest) level) := by
  apply pastes_bound (.inr rfl) bound rest (some level)
  intro list _
  simp only [Pasting.emit, Pasting.code, bindingOf, String.append_assoc]

/-- A random index needs a second temporary. -/
theorem pastes_boundIndex (bound index rest : String) :
    Pastes input sort [bound, index] fun list =>
      done (.statement (bindingOf bound list ++ "\n" ++ pickIndex index bound ++ rest)) :=
  .done ⟨"List " ++ bound ++ " = ", ";\n" ++ pickIndex index bound ++ rest, none, [bound, index]⟩
    (fun list => by
      have shape : BindsFirst list [bound, index] _ := .listAndIndex bound index rest
      simpa [Pasting.code, bindingOf, String.append_assoc] using shape)
    fun list _ => by simp [Pasting.emit, Pasting.code, bindingOf, String.append_assoc]

theorem pastes_readBound (mode : ReadMode) (bound at1 : String) :
    Pastes input sort [bound] fun list => readBound mode (bindingOf bound list) bound at1 := by
  cases mode with
  | drop =>
      apply (pastes_boundStatement bound
        ("\n" ++ removeAt bound (beforeEnd bound at1) ++ ";\n")).congr
      intro list _
      simp [readBound, String.append_assoc]
  | keep =>
      apply (pastes_boundValue bound
        (" " ++ elementAt bound (beforeEnd bound at1) ++ " \x7d") .atomic).congr
      intro list _
      simp [readBound, String.append_assoc]
  | take =>
      apply (pastes_boundValue bound
        (" " ++ removeAt bound (beforeEnd bound at1) ++ " \x7d") .atomic).congr
      intro list _
      simp [readBound, String.append_assoc]

/-- A random element of a list that is bound first. -/
theorem pastes_dropRandom (bound : String) :
    Pastes input sort [bound] fun list => dropRandom (bindingOf bound list ++ "\n") bound := by
  apply Pastes.temporary "tmp_x" (fun index list => done (.statement (bindingOf bound list ++
    "\n" ++ pickIndex index bound ++ removeAt bound index ++ ";\n"))) fun _ _ => rfl
  intro index
  apply (pastes_boundIndex bound index (removeAt bound index ++ ";\n")).congr
  intro list _
  simp only [String.append_assoc]

/-- A hoisted read names only the temporary again. -/
theorem pastes_readHoisted (apart : "AT" ≠ input) (mode : ReadMode) (position : Position) :
    Pastes input sort [] fun list => readHoisted o mode position list := by
  by_cases random : position = .random
  · apply Pastes.require .math (fun list => .temporary "tmp_list" fun bound =>
      dropRandom (bindingOf bound list ++ "\n") bound)
    · intro list _
      rw [readHoisted, if_pos random]
      rfl
    · exact .temporary _ _ (fun _ _ => rfl) pastes_dropRandom
  · apply (Pastes.adjustedIndex o 1 subtrahend (fun at1 list => .temporary "tmp_list" fun bound =>
      readBound mode (bindingOf bound list) bound at1) apart _).congr
    · intro list _
      rw [readHoisted, if_neg random]
      rfl
    · intro at1
      exact .temporary _ _ (fun _ _ => rfl) fun bound => pastes_readBound mode bound at1

/-- A direct read names the list once, unless the element is counted from the end or a random one
is dropped. -/
theorem pastes_readDirect (mode : ReadMode) {position : Position} (apart : "AT" ≠ input)
    (once : readsTwice mode position = false) :
    Pastes input sort [] fun list => readDirect o mode list position := by
  cases position with
  | first =>
      apply (pastes_emit mode ".first" (".removeAt(" ++ "0" ++ ")")).congr
      intro list _
      simp only [readDirect, removeAt, String.append_assoc]
  | last => exact pastes_emit mode ".last" ".removeLast()"
  | fromStart =>
      apply Pastes.adjustedIndex o 0 .anything (fun index list =>
        mode.emit (elementAt list index) (removeAt list index)) apart
      intro index
      apply (pastes_emit mode ("[" ++ index ++ "]") (".removeAt(" ++ index ++ ")")).congr
      intro list _
      simp only [elementAt, removeAt, String.append_assoc]
  | fromEnd => simp [readsTwice] at once
  | random =>
      cases mode with
      | drop => simp [readsTwice] at once
      | keep =>
          exact .require _ _ (fun _ _ => rfl) <| .helper _ _ (fun _ _ => rfl) fun name =>
            pastes_value (name ++ "(") ")" .unaryPostfix
      | take =>
          exact .require _ _ (fun _ _ => rfl) <| .helper _ _ (fun _ _ => rfl) fun name =>
            pastes_value (name ++ "(") ")" .unaryPostfix

theorem pastes_read (o : Options) (apart : "AT" ≠ input) (mode : ReadMode) (position : Position) :
    Pastes input SequenceKind.list.IsCompound [] fun list =>
      if readsTwice mode position && !Text.isBareWord list then readHoisted o mode position list
      else readDirect o mode list position := by
  cases twice : readsTwice mode position with
  | false => exact pastes_readDirect mode apart twice
  | true =>
      apply (pastes_readHoisted apart mode position).congr
      intro list compound
      have bare : Text.isBareWord list = false := compound
      rw [bare]
      rfl

/-- A compound list is bound before it is named twice. -/
theorem Pastes.bindUnlessBare (next : String → String → Script Emitted)
    (rest : ∀ bound, Pastes input SequenceKind.list.IsCompound (names ++ [bound]) fun list =>
      next (bindingOf bound list ++ "\n") bound) :
    Pastes input SequenceKind.list.IsCompound names fun list =>
      bindUnlessBare list >>= fun named => next named.1 named.2 := by
  refine .temporary "tmp_list" _ (fun list compound => ?_) rest
  have bare : Text.isBareWord list = false := compound
  rw [Template.bindUnlessBare, bare]
  rfl

theorem pastes_write (mode : WriteMode) (index value : String) :
    Pastes input sort [] fun list => done (.statement (mode.write list index value)) := by
  cases mode with
  | replace =>
      apply (pastes_statement "" ("[" ++ index ++ "]" ++ " = " ++ value ++ ";\n")).congr
      intro list _
      simp only [WriteMode.write, elementAt, String.append_assoc, String.empty_append]
  | shift =>
      apply (pastes_statement "" (".insert(" ++ index ++ ", " ++ value ++ ");\n")).congr
      intro list _
      simp only [WriteMode.write, String.append_assoc, String.empty_append]

/-- A write at an index that names the list again. -/
theorem pastes_boundWrite (mode : WriteMode) (value : String) (index : String → String) :
    Pastes input SequenceKind.list.IsCompound [] fun list => bindUnlessBare list >>= fun named =>
      done (.statement (named.1 ++ mode.write named.2 (index named.2) value)) := by
  apply Pastes.bindUnlessBare (fun binding list =>
    done (.statement (binding ++ mode.write list (index list) value)))
  intro bound
  apply (pastes_boundStatement bound ("\n" ++ mode.write bound (index bound) value)).congr
  intro list _
  rw [String.append_assoc]

/-- A write names the list once, or binds it first. -/
theorem pastes_writeElement (apart : "AT" ≠ input) (mode : WriteMode) (value : String)
    (position : Position) :
    Pastes input SequenceKind.list.IsCompound [] fun list =>
      writeElement o mode list value position >>= fun code => done (.statement code) := by
  cases position with
  | first => exact pastes_write mode "0" value
  | last =>
      cases mode with
      | replace =>
          apply (pastes_boundWrite .replace value fun list => beforeEnd list "1").congr
          intro list _
          simp only [writeElement, LawfulMonad.bind_assoc, done_bind]
      | shift =>
          apply (pastes_statement "" (".add(" ++ value ++ ");\n")).congr
          intro list _
          simp only [writeElement, done_bind, String.append_assoc, String.empty_append]
  | fromStart =>
      exact Pastes.adjustedIndex o 0 .anything
        (fun index list => done (.statement (mode.write list index value))) apart
        fun index => pastes_write mode index value
  | fromEnd =>
      apply (Pastes.adjustedIndex o 1 subtrahend _ apart fun at1 =>
        pastes_boundWrite mode value fun list => beforeEnd list at1).congr
      intro list _
      simp only [writeElement, LawfulMonad.bind_assoc, done_bind]
  | random =>
      apply Pastes.require .math (fun list => bindUnlessBare list >>= fun named =>
        temporaryName "tmp_x" >>= fun index => done (.statement
          (named.1 ++ pickIndex index named.2 ++ mode.write named.2 index value)))
      · intro list _
        simp only [writeElement, LawfulMonad.bind_assoc, done_bind]
        rfl
      · apply Pastes.bindUnlessBare (fun binding list =>
          temporaryName "tmp_x" >>= fun index => done (.statement
            (binding ++ pickIndex index list ++ mode.write list index value)))
        intro bound
        exact .temporary _ _ (fun _ _ => rfl) fun index => pastes_boundIndex bound index _

/-! ### Slices -/

/-- A slice that does not ask for the length. -/
theorem pastes_directSlice {sequence : SequenceKind} (apart : "AT1" ≠ input)
    (apart' : "AT2" ≠ input) {start : Position} (ahead : start ≠ .fromEnd) :
    Pastes input sort [] fun text => directSlice sequence o text start .fromStart := by
  have sliced (at1 : String) : Pastes input sort [] fun text =>
      adjustedIndex o "AT2" 1 .anything >>= fun at2 =>
        postfixValue (text ++ "." ++ sequence.sliceMethod ++ "(" ++ at1 ++ ", " ++ at2 ++ ")") := by
    apply Pastes.adjustedIndex o 1 .anything (fun at2 text =>
      postfixValue (text ++ "." ++ sequence.sliceMethod ++ "(" ++ at1 ++ ", " ++ at2 ++ ")")) apart'
    intro at2
    apply (pastes_value "" ("." ++ sequence.sliceMethod ++ "(" ++ at1 ++ ", " ++ at2 ++ ")")
      .unaryPostfix).congr
    intro text _
    simp only [postfixValue, String.append_assoc, String.empty_append]
  cases start with
  | fromEnd => exact absurd rfl ahead
  | fromStart =>
      exact Pastes.adjustedIndex o 0 .anything (fun at1 text =>
        adjustedIndex o "AT2" 1 .anything >>= fun at2 =>
          postfixValue (text ++ "." ++ sequence.sliceMethod ++ "(" ++ at1 ++ ", " ++ at2 ++ ")"))
        apart sliced
  | first | last | random => exact sliced "0"

theorem pastes_helperSlice (sequence : SequenceKind) (apart : "AT1" ≠ input)
    (apart' : "AT2" ≠ input) (start stop : Position) :
    Pastes input sort [] fun text => helperSlice sequence o text start stop := by
  apply Pastes.adjustedIndex o 0 .anything (fun at1 text =>
    adjustedIndex o "AT2" 0 .anything >>= fun at2 =>
      helperName sequence.sliceHelper >>= fun name => postfixValue (name ++ "(" ++ text ++ ", '" ++
        start.name ++ "', " ++ at1 ++ ", '" ++ stop.name ++ "', " ++ at2 ++ ")")) apart
  intro at1
  apply Pastes.adjustedIndex o 0 .anything (fun at2 text =>
    helperName sequence.sliceHelper >>= fun name => postfixValue (name ++ "(" ++ text ++ ", '" ++
      start.name ++ "', " ++ at1 ++ ", '" ++ stop.name ++ "', " ++ at2 ++ ")")) apart'
  intro at2
  apply Pastes.helper sequence.sliceHelper (fun name text => postfixValue (name ++ "(" ++ text ++
    ", '" ++ start.name ++ "', " ++ at1 ++ ", '" ++ stop.name ++ "', " ++ at2 ++ ")"))
    fun _ _ => rfl
  intro name
  apply (pastes_value (name ++ "(") (", '" ++ start.name ++ "', " ++ at1 ++ ", '" ++ stop.name ++
    "', " ++ at2 ++ ")") .unaryPostfix).congr
  intro text _
  simp only [postfixValue, String.append_assoc]

/-- A slice of a compound sequence names it once, or passes it to a helper. -/
theorem pastes_sliceOf (o : Options) (sequence : SequenceKind) (apart : "AT1" ≠ input)
    (apart' : "AT2" ≠ input) (start stop : Position) :
    Pastes input sequence.IsCompound [] fun text => sliceOf sequence o text start stop := by
  cases direct : needsNoLength start stop with
  | false =>
      apply (pastes_helperSlice sequence apart apart' start stop).congr
      intro text compound
      rw [sliceOf, compound, direct]
      rfl
  | true =>
      obtain ⟨ahead, rfl⟩ : start ≠ .fromEnd ∧ stop = .fromStart := by
        simpa [needsNoLength] using direct
      apply (pastes_directSlice apart apart' ahead).congr
      intro text _
      rw [sliceOf, direct, Bool.or_true]
      rfl

end Script

variable {o : Options} {n : Node}

theorem exists_readMode
    (offered : n.field "MODE" ∈ [none, some "GET", some "GET_REMOVE", some "REMOVE"]) :
    ∃ mode, readMode n = done mode := by
  simp only [List.mem_cons, List.not_mem_nil, or_false] at offered
  rcases offered with shown | shown | shown | shown
  · exact ⟨.keep, by simp [readMode, shown]⟩
  · exact ⟨.keep, by simp [readMode, shown]⟩
  · exact ⟨.take, by simp [readMode, shown]⟩
  · exact ⟨.drop, by simp [readMode, shown]⟩

theorem exists_writeMode (offered : n.field "MODE" ∈ [none, some "SET", some "INSERT"]) :
    ∃ mode, writeMode n = done mode := by
  simp only [List.mem_cons, List.not_mem_nil, or_false] at offered
  rcases offered with shown | shown | shown
  · exact ⟨.replace, by simp [writeMode, shown]⟩
  · exact ⟨.replace, by simp [writeMode, shown]⟩
  · exact ⟨.shift, by simp [writeMode, shown]⟩

theorem exists_positionOr {field : String} (default : Position)
    (offered : ∀ place ∈ n.field field, ∃ position : Position, place = position.name) :
    ∃ position, positionOr n field (some default) = done position := by
  cases shown : n.field field with
  | none => exact ⟨default, by simp [positionOr, shown]⟩
  | some place =>
      obtain ⟨position, rfl⟩ := offered place shown
      exact ⟨position, by simp [positionOr, shown]⟩

theorem sliceEnds_of_options {start stop : Position} (starts : start.startsSlice)
    (stops : stop.endsSlice) (first : n.field "WHERE1" = some start.name)
    (last : n.field "WHERE2" = some stop.name) : sliceEnds n = done (start, stop) := by
  simp [sliceEnds, positionOr, positionWith, first, last, starts, stops]

/-- A script asks for a collection, and pastes the code of it. -/
def Script.PastesInput (input : String) (sequence : SequenceKind) (script : Script Emitted) :
    Prop :=
  ∃ level family, Pastes input sequence.IsCompound [] family ∧
    script = valueOr input level sequence.empty >>= family

theorem listsGetIndex_pastes (offered : Kind.listsGetIndex.HasOptions n) :
    (listsGetIndex o n).PastesInput "VALUE" .list := by
  obtain ⟨mode, shown⟩ := exists_readMode offered.1
  obtain ⟨position, placed⟩ := exists_positionOr .fromStart offered.2
  refine ⟨if position = .random ∨ position = .fromEnd then .anything else .unaryPostfix, _,
    pastes_read o (by decide) mode position, ?_⟩
  rw [listsGetIndex, shown, placed]
  rfl

theorem listsSetIndex_pastes (offered : Kind.listsSetIndex.HasOptions n) :
    (listsSetIndex o n).PastesInput "LIST" .list := by
  obtain ⟨mode, shown⟩ := exists_writeMode offered.1
  obtain ⟨position, placed⟩ := exists_positionOr .fromStart offered.2
  refine ⟨.unaryPostfix, fun list => valueOr "TO" .assignment "null" >>= fun value =>
    writeElement o mode list value position >>= fun code => done (.statement code), ?_, ?_⟩
  · exact .value _ (by decide) (fun _ _ => rfl) fun value =>
      pastes_writeElement (by decide) mode (value.getD "null") position
  · rw [listsSetIndex, shown, placed]
    rfl

theorem listsGetSublist_pastes (offered : Kind.listsGetSublist.HasOptions n) :
    (listsGetSublist o n).PastesInput SequenceKind.list.sliceInput .list := by
  obtain ⟨⟨start, starts, first⟩, stop, stops, last⟩ := offered
  refine ⟨.unaryPostfix, _, pastes_sliceOf o .list (by decide) (by decide) start stop, ?_⟩
  rw [listsGetSublist, sliceEnds_of_options starts stops first last]
  rfl

theorem textGetSubstring_pastes (offered : Kind.textGetSubstring.HasOptions n) :
    (textGetSubstring o n).PastesInput SequenceKind.text.sliceInput .text := by
  obtain ⟨⟨start, starts, first⟩, stop, stops, last⟩ := offered
  refine ⟨if needsNoLength start stop then .unaryPostfix else .anything, fun text =>
    if start = .first ∧ stop = .last then done (.value text .anything)
    else sliceOf .text o text start stop, ?_, ?_⟩
  · by_cases whole : start = .first ∧ stop = .last
    · apply (pastes_value "" "" .anything).congr
      intro text _
      rw [if_pos whole, String.empty_append, String.append_empty]
    · simpa only [if_neg whole] using pastes_sliceOf o .text (by decide) (by decide) start stop
  · rw [textGetSubstring, sliceEnds_of_options starts stops first last]
    rfl

/-- The script of a block that works on a collection asks for the collection, and pastes it. -/
theorem Kind.script_pastes {kind : Kind} {input : String} {sequence : SequenceKind}
    (works : kind.collection? = some (input, sequence)) (offered : kind.HasOptions n) :
    (kind.script o n).PastesInput input sequence := by
  cases kind <;> simp only [collection?, Option.some.injEq, Prod.mk.injEq, reduceCtorEq] at works
  case listsGetIndex =>
    obtain ⟨rfl, rfl⟩ := works
    exact listsGetIndex_pastes offered
  case listsSetIndex =>
    obtain ⟨rfl, rfl⟩ := works
    exact listsSetIndex_pastes offered
  case listsGetSublist =>
    obtain ⟨rfl, rfl⟩ := works
    exact listsGetSublist_pastes offered
  case textGetSubstring =>
    obtain ⟨rfl, rfl⟩ := works
    exact textGetSubstring_pastes offered

namespace Block

/-- The code of the block in a value input. -/
def codeIn (o : Options) (values : Table Block) (input : String) (level : Precedence) :
    Pass (Option String) :=
  Surroundings.valueIn ⟨"", renderValues o values, []⟩ input level

/-- The temporaries that the script of a block asks for. -/
def ownTemporaries (o : Options) (kind : Kind) (b : Block) (ledger : Ledger) : List String :=
  (kind.script o b.node).temporaries o
    ⟨remarkLines kind b.node b.values, renderValues o b.values, renderStatements o b.statements⟩
    ledger

/-- The values are those of the block, except for one input; rendering what is in there leads from
one state to another and gives a text, or a default if nothing is there. -/
structure Supplies (o : Options) (b : Block) (input default : String) (level : Precedence)
    (ledger mid : Ledger) (values : Table Block) (text : String) : Prop where
  others : ∀ other ≠ input, Table.get? values other = b.value? other
  rendered : ∃ reply, codeIn o values input level ledger = (.ok reply, mid) ∧
    reply.getD default = text

/-- Whatever compound code stands in an input, as long as it leaves the state in the same way, it is
pasted once into the same code, with all temporaries bound before they are named. Only if another
input has an error, the block has it, too. -/
def PastesOnce (o : Options) (kind : Kind) (b : Block) (input : String) (sequence : SequenceKind) :
    Prop :=
  ∃ level, ∀ ledger mid,
    (∃ error after, FailsApartFrom input (renderValues o b.values) error ∧
      ∀ values text, b.Supplies o input sequence.empty level ledger mid values text →
        sequence.IsCompound text → own o kind { b with values } ledger = (.error error, after)) ∨
    ∃ (p : Pasting) (after : Ledger), p.Binds ∧
      ∀ values text, b.Supplies o input sequence.empty level ledger mid values text →
        sequence.IsCompound text →
          own o kind { b with values } ledger = (.ok (p.emit text), after) ∧
            ownTemporaries o kind { b with values } ledger = p.temporaries

variable {o : Options} {b : Block} {kind : Kind} {input : String} {sequence : SequenceKind}

/-- A compound collection is evaluated once. -/
theorem own_pastes_collection (works : kind.collection? = some (input, sequence))
    (offered : kind.HasOptions b.node) : b.PastesOnce o kind input sequence := by
  obtain ⟨level, family, pastes, asks⟩ := Kind.script_pastes (o := o) works offered
  refine ⟨level, fun ledger mid => ?_⟩
  have step {values : Table Block} {text : String}
      (supplied : b.Supplies o input sequence.empty level ledger mid values text) :
      own o kind { b with values } ledger = (family text).run o
          ⟨remarkLines kind b.node values, renderValues o values, renderStatements o b.statements⟩
          mid ∧
        ownTemporaries o kind { b with values } ledger = (family text).temporaries o
          ⟨remarkLines kind b.node values, renderValues o values, renderStatements o b.statements⟩
          mid := by
    obtain ⟨-, reply, read, rfl⟩ := supplied
    constructor
    · rw [own, asks]
      exact Pass.andThen_of_ok read
    · rw [ownTemporaries, asks]
      exact temporaries_value read
  have agree {values : Table Block} {text remarks : String} {statements : Table (Pass String)}
      (supplied : b.Supplies o input sequence.empty level ledger mid values text) :
      Surroundings.AgreeApartFrom input (renderValues o b.values)
        ⟨remarks, renderValues o values, statements⟩ := by
    intro other apart
    simp only [get?_renderValues]
    rw [supplied.others other apart]
    rfl
  rcases pastes.run o (renderValues o b.values) mid with
    ⟨error, after, fails, runs⟩ | ⟨p, after, binds, runs⟩
  · refine .inl ⟨error, after, fails, fun values text supplied compound => ?_⟩
    rw [(step supplied).1]
    exact runs text _ compound (agree supplied)
  · refine .inr ⟨p, after, binds, fun values text supplied compound => ?_⟩
    rw [(step supplied).1, (step supplied).2]
    obtain ⟨ran, listed⟩ := runs text _ compound (agree supplied)
    exact ⟨ran, listed.symm⟩

/-- The last element of a new list. -/
def lastOfCreated : Block :=
  { node := { id := "g", kindName := "lists_getIndex", fields := [("WHERE", "FROM_END")] }
    values := [("VALUE", { node := { id := "l", kindName := "lists_create_empty" } })] }

theorem own_pastes_collection_lastOfCreated :
    Kind.listsGetIndex.collection? = some ("VALUE", .list) ∧
      Kind.listsGetIndex.HasOptions lastOfCreated.node ∧
      lastOfCreated.PastesOnce {} .listsGetIndex "VALUE" .list ∧
      (lastOfCreated.own {} .listsGetIndex {}).1 =
        .ok (.value "\x7b List tmp_list = []; tmp_list[tmp_list.length - 1] \x7d" .atomic) := by
  have offered : Kind.listsGetIndex.HasOptions lastOfCreated.node :=
    ⟨by decide, fun place shown => ⟨.fromEnd, (Option.some.inj shown).symm⟩⟩
  exact ⟨rfl, offered, own_pastes_collection rfl offered, by decide +kernel⟩

end Block

end BlockScript
