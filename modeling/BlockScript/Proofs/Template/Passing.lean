import Mathlib.Data.List.TakeWhile
import BlockScript.Proofs.Rendering.Passing

/-! # Expressions pass on what they are given

Kind by kind, the code in the inputs of an expression stands in its own code. There are two cases to
look at: an index is folded if it is a numeral, and a test for divisibility keeps its number to itself
if there is no divisor. -/

namespace BlockScript

namespace Text

/-- What is dropped in front of a list is of the sort that is dropped. -/
theorem mem_dropWhile_of_not {p : Char → Bool} {c : Char} (hc : p c = false) {cs : List Char}
    (h : c ∈ cs) : c ∈ cs.dropWhile p := by
  rw [← List.takeWhile_append_dropWhile (p := p) (l := cs)] at h
  rcases List.mem_append.mp h with h | h
  · exact absurd (List.mem_takeWhile_imp h) (by rw [hc]; exact Bool.false_ne_true)
  · exact h

theorem slash_mem_dropMinus {cs : List Char} (h : '/' ∈ cs) : '/' ∈ dropMinus cs := by
  unfold dropMinus
  split
  · exact List.mem_of_ne_of_mem (by decide) h
  · exact h

theorem slash_mem_of_dropMagnitude {cs rest : List Char} (h : dropMagnitude cs = some rest)
    (mem : '/' ∈ cs) : '/' ∈ rest := by
  have behind := mem_dropWhile_of_not (p := isDecimalDigit) (by decide) mem
  simp only [dropMagnitude, spanDigits] at h
  split at h
  · next tail point =>
      rw [point] at behind
      have fraction := List.mem_of_ne_of_mem (by decide) behind
      obtain ⟨-, rest⟩ := Option.ite_none_left_eq_some.mp h
      exact Option.some.inj rest ▸ mem_dropWhile_of_not (by decide) fraction
  · obtain ⟨-, rest⟩ := Option.ite_none_left_eq_some.mp h
    exact Option.some.inj rest ▸ behind

theorem slash_mem_of_dropExponent {cs rest : List Char} (h : dropExponent cs = some rest)
    (mem : '/' ∈ cs) : '/' ∈ rest := by
  unfold dropExponent at h
  split at h
  · next tail =>
      have exponent := slash_mem_dropMinus (List.mem_of_ne_of_mem (by decide) mem)
      simp only [spanDigits] at h
      obtain ⟨-, rest⟩ := Option.ite_none_left_eq_some.mp h
      exact Option.some.inj rest ▸ mem_dropWhile_of_not (by decide) exponent
  · exact Option.some.inj h ▸ mem

/-- There is no slash in a numeral. -/
theorem isNumericLiteral_of_slash {code : String} (slash : '/' ∈ code.toList) :
    isNumericLiteral code = false := by
  have front : '/' ∈ dropMinus (trimStart code.toList) :=
    slash_mem_dropMinus (mem_dropWhile_of_not (by decide) slash)
  unfold isNumericLiteral
  split
  · rfl
  · next rest magnitude =>
      have behind := slash_mem_of_dropMagnitude magnitude front
      split
      · rfl
      · next after exponent =>
          have last := slash_mem_of_dropExponent exponent behind
          refine Bool.eq_false_iff.mpr fun blank => ?_
          exact absurd (List.all_eq_true.mp blank _ last) (by decide)

end Text

namespace Template
open Script

variable {supplied : String → Prop} {o : Options} {n : Node}

/-! ### Parts of scripts -/

theorem passesOn_requiredField (n : Node) (field : String) :
    (n.requiredField field).PassesOn supplied fun value given =>
      given = [] ∧ n.field field = some value := by
  unfold Node.requiredField
  split
  · next value known => exact ⟨rfl, known⟩
  · trivial

theorem passesOn_positionOr (n : Node) (field : String) (default : Option Position) :
    (positionOr n field default).PassesOn supplied fun _ given => given = [] ∧ True := by
  unfold positionOr
  split
  · exact ⟨rfl, trivial⟩
  · trivial
  · split
    · exact ⟨rfl, trivial⟩
    · trivial

/-- Code with a slash in it is not folded. -/
theorem passedOn_shiftIndex {given : List String} {code : String} (h : PassedOn given code)
    (shift : Int) (required : Precedence) : PassedOn given (shiftIndex code shift required) := by
  intro text mem slash
  have carried : Carries text code := h text mem slash
  have compound : Text.isNumericLiteral code = false :=
    Text.isNumericLiteral_of_slash (carried.slash slash)
  have shifted : shiftIndex code shift required = shiftedCode code shift required := by
    simp [shiftIndex, compound]
  rw [shifted, shiftedCode]
  split
  · exact ((carried.append_left _).append_left _).wrap _ _
  · split
    · exact ((carried.append_left _).append_left _).wrap _ _
    · exact carried

theorem passesOn_index (input : String) (delta : Int) (required : Precedence) :
    (adjustedIndex o input delta required).PassesOn supplied fun text given =>
      PassedOn given text := by
  refine .valueOr fun code given hc => ?_
  have index := passedOn_shiftIndex hc (indexShift o delta) required
  show PassedOn _ _
  grind

theorem passesOn_adjustedIndex {α : Type} {Q : α → List String → Prop} {input : String}
    {delta : Int} {required : Precedence} {f : String → Script α}
    (h : ∀ text given, PassedOn given text →
      (f text).PassesOn supplied fun a more => Q a (given ++ more)) :
    (adjustedIndex o input delta required >>= f).PassesOn supplied Q :=
  PassesOn.bind ((passesOn_index input delta required).mono h)

/-- The code in numbered inputs is passed on by the texts for them. -/
theorem passesOn_numberedValues (base : String) (level : Precedence) (default : String)
    (count : Nat) :
    (numberedValues base level default count).PassesOn supplied fun texts given =>
      ∀ code ∈ given, '/' ∈ code.toList → ∃ text ∈ texts, Carries code text := by
  refine .mapM fun i _ => ?_
  intro code _
  cases code with
  | none => exact .nil default
  | some text => exact .single text

/-- Code that one of several texts passes on is passed on by all of them joined. -/
theorem passedOn_intercalate {given texts : List String}
    (h : ∀ code ∈ given, '/' ∈ code.toList → ∃ text ∈ texts, Carries code text)
    (separator : String) : PassedOn given (separator.intercalate texts) := by
  intro code mem slash
  obtain ⟨text, member, carried⟩ := h code mem slash
  exact carried.intercalate member separator

/-- What stands for missing code does not matter. -/
theorem passedOn_getD (code : Option String) (default : String) :
    PassedOn code.toList (code.getD default) := by
  cases code with
  | none => exact .nil default
  | some text => exact .single text

/-! ### Operators -/

theorem passesOn_binary (operator : String) (level : Precedence) :
    (binary operator level).PassesOn supplied Emitted.PassesOn := by
  refine .valueOr fun a given ha => .valueOr fun b more hb => ?_
  show PassedOn _ _
  grind

theorem passesOn_power : power.PassesOn supplied Emitted.PassesOn := by
  refine .require (.valueOr fun a given ha => .valueOr fun b more hb => ?_)
  show PassedOn _ _
  grind

theorem passesOn_mathArithmetic : (mathArithmetic n).PassesOn supplied Emitted.PassesOn := by
  refine .quiet (passesOn_requiredField n "OP") fun op _ => ?_
  split
  · exact passesOn_binary _ _
  · split
    · exact passesOn_power
    · trivial

theorem passesOn_mathModulo : mathModulo.PassesOn supplied Emitted.PassesOn := by
  refine .valueOr fun a given ha => .valueOr fun b more hb => ?_
  show PassedOn _ _
  grind

theorem passesOn_negation : negation.PassesOn supplied Emitted.PassesOn := by
  refine .valueOr fun a given ha => ?_
  show PassedOn _ _
  unfold minus
  split <;> grind

theorem passesOn_logicCompare : (logicCompare n).PassesOn supplied Emitted.PassesOn := by
  refine .quiet (passesOn_requiredField n "OP") fun op _ => ?_
  split
  · exact passesOn_binary _ _
  · trivial

theorem passesOn_logicOperation : (logicOperation n).PassesOn supplied Emitted.PassesOn := by
  refine .quiet (passesOn_requiredField n "OP") fun op _ => ?_
  split
  · trivial
  · next operator level neutral _ =>
      refine .value? fun a _ => .value? fun b _ => ?_
      have ha := passedOn_getD a neutral
      have hb := passedOn_getD b neutral
      split
      · exact .nil _
      · show PassedOn _ _
        grind

theorem passesOn_logicNegate : logicNegate.PassesOn supplied Emitted.PassesOn := by
  refine .valueOr fun a given ha => ?_
  show PassedOn _ _
  grind

theorem passesOn_logicBoolean : (logicBoolean n).PassesOn supplied Emitted.PassesOn := by
  refine .quiet (passesOn_requiredField n "BOOL") fun value _ => ?_
  split
  · exact .nil _
  · exact .nil _
  · trivial

theorem passesOn_logicTernary : logicTernary.PassesOn supplied Emitted.PassesOn := by
  refine .valueOr fun a given ha => .valueOr fun b more hb => .valueOr fun c last hc => ?_
  show PassedOn _ _
  grind

/-- An emission passes on all if nothing is given. -/
theorem passesOn_nil (emitted : Emitted) : emitted.PassesOn [] := by
  cases emitted with
  | value text level => exact .nil text
  | statement | nothing => trivial

theorem passesOn_mathNumber : (mathNumber n).PassesOn supplied Emitted.PassesOn := by
  unfold mathNumber
  dsimp only
  split
  · exact passesOn_nil _
  · trivial

/-- A test passes on its number, unless a divisor is missing. -/
theorem passesOn_test {property : Property} (divided : property = .divisible → supplied "DIVISOR") :
    property.test.PassesOn supplied Emitted.PassesOn := by
  cases property with
  | prime =>
      refine .value? fun code _ => ?_
      cases code with
      | none => exact .nil _
      | some number =>
          refine .require (.helperName fun test => ?_)
          show PassedOn _ _
          have hn := PassedOn.single number
          grind
  | divisible =>
      refine .value? fun code _ => ?_
      cases code with
      | none => exact .nil _
      | some number =>
          refine .value? fun code known => ?_
          cases code with
          | none => exact absurd rfl (known (divided rfl))
          | some divisor =>
              have hn := PassedOn.single number
              have hd := PassedOn.single divisor
              show PassedOn _ _
              grind
  | _ =>
      refine .value? fun code _ => ?_
      cases code with
      | none => exact .nil _
      | some number =>
          have hn := PassedOn.single number
          show PassedOn _ _
          grind

theorem passesOn_mathNumberProperty
    (divided : n.field "PROPERTY" = some "DIVISIBLE_BY" → supplied "DIVISOR") :
    (mathNumberProperty n).PassesOn supplied Emitted.PassesOn := by
  refine .quiet (passesOn_requiredField n "PROPERTY") fun name field => ?_
  split
  · trivial
  · next property known =>
      refine passesOn_test fun test => divided ?_
      subst test
      unfold Property.ofName? at known
      split at known <;> first | exact field | cases known

/-! ### Functions -/

theorem passesOn_mathSingle : (mathSingle n).PassesOn supplied Emitted.PassesOn := by
  refine .quiet (passesOn_requiredField n "OP") fun op _ => ?_
  split
  · exact passesOn_negation
  · split
    · trivial
    · refine .require (.valueOr fun a given ha => ?_)
      show PassedOn _ _
      grind

theorem passesOn_mathConstant : (mathConstant n).PassesOn supplied Emitted.PassesOn := by
  refine .quiet (passesOn_requiredField n "CONSTANT") fun name _ => ?_
  split
  · exact passesOn_nil _
  · split
    · trivial
    · exact .require (passesOn_nil _)

theorem passesOn_mathOnList : (mathOnList n).PassesOn supplied Emitted.PassesOn := by
  refine .quiet (passesOn_requiredField n "OP") fun op _ => ?_
  split
  · trivial
  · refine .valueOr fun list given hl => ?_
    split
    · refine .require (.helperName fun name => ?_)
      show PassedOn _ _
      grind
    · refine .helperName fun name => ?_
      show PassedOn _ _
      grind

theorem passesOn_mathConstrain : mathConstrain.PassesOn supplied Emitted.PassesOn := by
  refine .require (.valueOr fun a given ha => .valueOr fun b more hb => .valueOr fun c last hc => ?_)
  show PassedOn _ _
  grind

theorem passesOn_mathRandomInt : mathRandomInt.PassesOn supplied Emitted.PassesOn := by
  refine .require (.valueOr fun a given ha => .valueOr fun b more hb => .helperName fun name => ?_)
  show PassedOn _ _
  grind

theorem passesOn_mathAtan2 : mathAtan2.PassesOn supplied Emitted.PassesOn := by
  refine .require (.valueOr fun a given ha => .valueOr fun b more hb => ?_)
  show PassedOn _ _
  grind

theorem passesOn_colourRandom : colourRandom.PassesOn supplied Emitted.PassesOn :=
  .require (.helperName fun _ => passesOn_nil _)

theorem passesOn_colourRgb : colourRgb.PassesOn supplied Emitted.PassesOn := by
  refine .valueOr fun a given ha => .valueOr fun b more hb => .valueOr fun c last hc => ?_
  refine .require (.helperName fun name => ?_)
  show PassedOn _ _
  grind

theorem passesOn_colourBlend : colourBlend.PassesOn supplied Emitted.PassesOn := by
  refine .valueOr fun a given ha => .valueOr fun b more hb => .valueOr fun c last hc => ?_
  refine .require (.helperName fun name => ?_)
  show PassedOn _ _
  grind

/-! ### Texts and lists -/

theorem passesOn_textJoin : (textJoin n).PassesOn supplied Emitted.PassesOn := by
  unfold textJoin
  split
  · exact passesOn_nil _
  · refine .valueOr fun item given hi => ?_
    show PassedOn _ _
    grind
  · refine PassesOn.bind ((passesOn_numberedValues _ _ _ _).mono fun items given hi => ?_)
    have joined := passedOn_intercalate hi ","
    show PassedOn _ _
    grind

theorem passesOn_textMethod (call : String) :
    (textMethod call).PassesOn supplied Emitted.PassesOn := by
  refine .valueOr fun text given ht => ?_
  show PassedOn _ _
  grind

theorem passesOn_textChangeCase : (textChangeCase n).PassesOn supplied Emitted.PassesOn := by
  refine .quiet (passesOn_requiredField n "CASE") fun letters _ => ?_
  split
  · exact passesOn_textMethod _
  · exact passesOn_textMethod _
  · refine .valueOr fun text given ht => .helperName fun name => ?_
    show PassedOn _ _
    grind
  · trivial

theorem passesOn_textTrim : (textTrim n).PassesOn supplied Emitted.PassesOn := by
  refine .quiet (passesOn_requiredField n "MODE") fun side _ => ?_
  split
  · exact passesOn_textMethod _
  · exact passesOn_textMethod _
  · exact passesOn_textMethod _
  · trivial

theorem passesOn_asksForNumber (n : Node) :
    (asksForNumber n).PassesOn supplied fun _ given => given = [] ∧ True := by
  unfold asksForNumber
  split
  · exact ⟨rfl, trivial⟩
  · exact ⟨rfl, trivial⟩
  · exact ⟨rfl, trivial⟩
  · trivial

theorem passesOn_promptMessage (n : Node) :
    (promptMessage n).PassesOn supplied fun text given => PassedOn given text := by
  unfold promptMessage
  split
  · exact .nil _
  · intro code _
    have message := passedOn_getD code "''"
    show PassedOn _ _
    grind

theorem passesOn_textPrompt : (textPrompt n).PassesOn supplied Emitted.PassesOn := by
  refine .quiet (passesOn_asksForNumber n) fun isNumber _ => .require ?_
  refine PassesOn.bind ((passesOn_promptMessage n).mono fun message given hm => ?_)
  dsimp only
  split
  · refine .require ?_
    show PassedOn _ _
    grind
  · show PassedOn _ _
    grind

theorem passesOn_textCount : textCount.PassesOn supplied Emitted.PassesOn := by
  refine .valueOr fun a given ha => .valueOr fun b more hb => .helperName fun name => ?_
  show PassedOn _ _
  grind

theorem passesOn_textReplace : textReplace.PassesOn supplied Emitted.PassesOn := by
  refine .valueOr fun a given ha => .valueOr fun b more hb => .valueOr fun c last hc => ?_
  show PassedOn _ _
  grind

theorem passesOn_textReverse : textReverse.PassesOn supplied Emitted.PassesOn := by
  refine .valueOr fun text given ht => ?_
  show PassedOn _ _
  grind

theorem passesOn_listsCreateWith : (listsCreateWith n).PassesOn supplied Emitted.PassesOn := by
  refine PassesOn.bind ((passesOn_numberedValues _ _ _ _).mono fun items given hi => ?_)
  have joined := passedOn_intercalate hi ", "
  show PassedOn _ _
  grind

theorem passesOn_listsRepeat : listsRepeat.PassesOn supplied Emitted.PassesOn := by
  refine .valueOr fun a given ha => .valueOr fun b more hb => ?_
  show PassedOn _ _
  grind

theorem passesOn_listsSort : (listsSort n).PassesOn supplied Emitted.PassesOn := by
  refine .quiet (passesOn_requiredField n "TYPE") fun sortOrder _ => ?_
  split
  · refine .valueOr fun list given hl => .helperName fun name => ?_
    show PassedOn _ _
    grind
  · trivial

theorem passesOn_listsSplit : (listsSplit n).PassesOn supplied Emitted.PassesOn := by
  refine .quiet (passesOn_requiredField n "MODE") fun mode _ => ?_
  split
  · trivial
  · refine .valueOr fun a given ha => .valueOr fun b more hb => ?_
    show PassedOn _ _
    grind

theorem passesOn_listsReverse : listsReverse.PassesOn supplied Emitted.PassesOn := by
  refine .valueOr fun list given hl => ?_
  show PassedOn _ _
  grind

/-! ### Sequences -/

section Sequences
variable (kind : SequenceKind)

theorem passesOn_sequenceLength :
    (sequenceLength kind).PassesOn supplied Emitted.PassesOn := by
  refine .valueOr fun sequence given hs => ?_
  show PassedOn _ _
  grind

theorem passesOn_sequenceIsEmpty :
    (sequenceIsEmpty kind).PassesOn supplied Emitted.PassesOn := by
  refine .valueOr fun sequence given hs => ?_
  show PassedOn _ _
  grind

theorem passesOn_sequenceIndexOf :
    (sequenceIndexOf kind o n).PassesOn supplied Emitted.PassesOn := by
  refine .quiet (passesOn_requiredField n "END") fun side _ => ?_
  split
  · trivial
  · refine .valueOr fun a given ha => .valueOr fun b more hb => ?_
    dsimp only
    split
    · show PassedOn _ _
      grind
    · show PassedOn _ _
      grind

theorem passesOn_positionWith (n : Node) (field : String) (position : Position) (holds : Bool) :
    (positionWith n field position holds).PassesOn supplied fun _ given => given = [] ∧ True := by
  unfold positionWith
  split
  · exact ⟨rfl, trivial⟩
  · trivial

theorem passesOn_sliceEnds (n : Node) :
    (sliceEnds n).PassesOn supplied fun _ given => given = [] ∧ True := by
  refine .quiet (passesOn_positionOr n _ _) fun start _ => ?_
  refine .quiet (passesOn_positionOr n _ _) fun stop _ => ?_
  refine .quiet (passesOn_positionWith n _ _ _) fun _ _ => ?_
  refine .quiet (passesOn_positionWith n _ _ _) fun _ _ => ?_
  exact ⟨rfl, trivial⟩

/-- The start of a slice passes on its index; the sequence stands in front of it. -/
theorem passesOn_sliceStart (sequence : String) (start : Position) :
    (sliceStart o sequence start).PassesOn supplied fun text given => PassedOn given text := by
  cases start with
  | fromStart => exact passesOn_index _ _ _
  | fromEnd =>
      refine passesOn_adjustedIndex fun text given ht => ?_
      show PassedOn _ _
      grind
  | first | last | random => exact .nil _

variable {given : List String} {sequence : String} (hs : PassedOn given sequence)
include hs

theorem passesOn_directSlice (start stop : Position) :
    (directSlice kind o sequence start stop).PassesOn supplied fun emitted more =>
      emitted.PassesOn (given ++ more) := by
  refine PassesOn.bind ((passesOn_sliceStart sequence start).mono fun at1 more h1 => ?_)
  have call : PassedOn (given ++ more) (sequence ++ "." ++ kind.sliceMethod ++ "(" ++ at1) := by
    grind
  dsimp only
  split
  · refine passesOn_adjustedIndex fun at2 last h2 => ?_
    show PassedOn _ _
    grind
  · refine passesOn_adjustedIndex fun at2 last h2 => ?_
    show PassedOn _ _
    grind
  · show PassedOn _ _
    grind

theorem passesOn_helperSlice (start stop : Position) :
    (helperSlice kind o sequence start stop).PassesOn supplied fun emitted more =>
      emitted.PassesOn (given ++ more) := by
  refine passesOn_adjustedIndex fun at1 more h1 => passesOn_adjustedIndex fun at2 last h2 => ?_
  refine .helperName fun name => ?_
  have front : PassedOn (given ++ more)
      (name ++ "(" ++ sequence ++ ", '" ++ start.name ++ "', " ++ at1) := by grind
  show PassedOn _ _
  grind

theorem passesOn_sliceOf (start stop : Position) :
    (sliceOf kind o sequence start stop).PassesOn supplied fun emitted more =>
      emitted.PassesOn (given ++ more) := by
  unfold sliceOf
  split
  · exact passesOn_directSlice kind hs start stop
  · exact passesOn_helperSlice kind hs start stop

end Sequences

theorem passesOn_listsGetSublist : (listsGetSublist o n).PassesOn supplied Emitted.PassesOn := by
  refine .quiet (passesOn_sliceEnds n) fun ends _ => .valueOr fun list given hl => ?_
  exact passesOn_sliceOf .list hl _ _

theorem passesOn_textGetSubstring : (textGetSubstring o n).PassesOn supplied Emitted.PassesOn := by
  refine .quiet (passesOn_sliceEnds n) fun ends _ => .valueOr fun text given ht => ?_
  split
  · show PassedOn _ _
    grind
  · exact passesOn_sliceOf .text ht _ _

/-! ### Elements -/

theorem passesOn_readMode (n : Node) :
    (readMode n).PassesOn supplied fun _ given => given = [] ∧ True := by
  unfold readMode
  split
  · exact ⟨rfl, trivial⟩
  · exact ⟨rfl, trivial⟩
  · exact ⟨rfl, trivial⟩
  · exact ⟨rfl, trivial⟩
  · trivial

/-- What is left of a read passes on all that both of its texts do. -/
theorem passesOn_emit (mode : ReadMode) {kept taken : String} {given : List String}
    {Q : Emitted → List String → Prop} (hk : PassedOn given kept) (ht : PassedOn given taken)
    (enough : ∀ emitted : Emitted, emitted.PassesOn given → Q emitted []) :
    (mode.emit kept taken).PassesOn supplied Q := by
  cases mode with
  | keep => exact enough _ hk
  | take => exact enough _ ht
  | drop => exact enough _ trivial

section Elements
variable {given : List String} {list : String} (hl : PassedOn given list)
include hl

theorem passesOn_readHoisted (mode : ReadMode) (position : Position) :
    (readHoisted o mode position list).PassesOn supplied fun emitted more =>
      emitted.PassesOn (given ++ more) := by
  unfold readHoisted
  split
  · exact .require (.temporaryName fun _ => .temporaryName fun _ => trivial)
  · refine passesOn_adjustedIndex fun at1 more h1 => .temporaryName fun bound => ?_
    have binding : PassedOn given (bindingOf bound list) := by grind [bindingOf]
    have index : PassedOn more (beforeEnd bound at1) := by grind [beforeEnd]
    cases mode with
    | keep =>
        show PassedOn _ _
        grind [elementAt]
    | take =>
        show PassedOn _ _
        grind [removeAt]
    | drop => trivial

theorem passesOn_readDirect (mode : ReadMode) (position : Position) :
    (readDirect o mode list position).PassesOn supplied fun emitted more =>
      emitted.PassesOn (given ++ more) := by
  cases position with
  | first => exact passesOn_emit mode (by grind) (by grind [removeAt]) fun _ h => h
  | last => exact passesOn_emit mode (by grind) (by grind) fun _ h => h
  | fromStart =>
      refine passesOn_adjustedIndex fun index more hi => ?_
      exact passesOn_emit mode (by grind [elementAt]) (by grind [removeAt]) fun _ h => h
  | fromEnd =>
      refine passesOn_adjustedIndex fun at1 more h1 => ?_
      have index : PassedOn more (beforeEnd list at1) := by grind [beforeEnd]
      exact passesOn_emit mode (by grind [elementAt]) (by grind [removeAt]) fun _ h => h
  | random =>
      refine .require ?_
      cases mode with
      | drop => exact .temporaryName fun _ => trivial
      | keep | take =>
          refine .helperName fun name => ?_
          show PassedOn _ _
          grind

theorem passesOn_letterFromEnd {more : List String} {at1 : String} (h1 : PassedOn more at1) :
    (letterFromEnd list at1).PassesOn supplied fun emitted last =>
      emitted.PassesOn (given ++ (more ++ last)) := by
  refine .helperName fun name => ?_
  show PassedOn _ _
  grind

end Elements

theorem passesOn_listsGetIndex : (listsGetIndex o n).PassesOn supplied Emitted.PassesOn := by
  refine .quiet (passesOn_readMode n) fun mode _ => ?_
  refine .quiet (passesOn_positionOr n _ _) fun position _ => .valueOr fun list given hl => ?_
  split
  · exact passesOn_readHoisted hl mode position
  · exact passesOn_readDirect hl mode position

theorem passesOn_textCharAt : (textCharAt o n).PassesOn supplied Emitted.PassesOn := by
  refine .quiet (passesOn_positionOr n _ _) fun position _ => .valueOr fun text given ht => ?_
  cases position with
  | first =>
      show PassedOn _ _
      grind [elementAt]
  | fromStart =>
      refine passesOn_adjustedIndex fun index more hi => ?_
      show PassedOn _ _
      grind [elementAt]
  | last => exact passesOn_letterFromEnd ht (.nil "1")
  | fromEnd => exact passesOn_adjustedIndex fun at1 more h1 => passesOn_letterFromEnd ht h1
  | random =>
      refine .require (.helperName fun name => ?_)
      show PassedOn _ _
      grind

/-! ### Messages, pins and calls -/

theorem passesOn_coap : (coap o n).PassesOn supplied Emitted.PassesOn := by
  refine PassesOn.bind ((passesOn_numberedValues _ _ _ _).mono fun entries given he => ?_)
  have joined := passedOn_intercalate he ",\n"
  have carried : Carries (",\n".intercalate entries) (Text.joinLines
      ["coap!( @json \x7b", Text.prefixLines (",\n".intercalate entries) o.indent, "\x7d)"]) :=
    (Carries.self.indented o.indent).intercalate (by simp) "\n"
  have whole := joined.trans carried
  show PassedOn _ _
  grind

theorem passesOn_field : (field n).PassesOn supplied Emitted.PassesOn := by
  refine .valueOr fun value given hv => ?_
  show PassedOn _ _
  grind

theorem passesOn_pinOf (n : Node) :
    (pinOf n).PassesOn supplied fun _ given => given = [] ∧ True := by
  unfold pinOf
  split
  · trivial
  · split
    · exact ⟨rfl, trivial⟩
    · trivial

theorem passesOn_digitalReadPin : (digitalReadPin n).PassesOn supplied Emitted.PassesOn :=
  .quiet (passesOn_pinOf n) fun _ _ => passesOn_nil _

theorem passesOn_proceduresCallReturn :
    (proceduresCallReturn n).PassesOn supplied Emitted.PassesOn := by
  refine PassesOn.bind (.procedureName fun routine => ?_)
  refine PassesOn.bind ((passesOn_numberedValues _ _ _ _).mono fun arguments given ha => ?_)
  have joined := passedOn_intercalate ha ", "
  show PassedOn _ _
  grind

/-- A handler that loses its quotes is carried still. -/
theorem carries_passHandlers (function : String) {code : String} {arguments : List String}
    (h : ∃ text ∈ arguments, Carries code text) :
    ∃ text ∈ passHandlers function arguments, Carries code text := by
  unfold passHandlers
  split
  · obtain ⟨text, mem, carried⟩ := h
    obtain ⟨i, inside, rfl⟩ := List.getElem_of_mem mem
    refine ⟨_, List.mem_mapIdx.mpr ⟨i, inside, rfl⟩, ?_⟩
    split
    · exact carried.unquoted
    · exact carried
  · exact h

theorem passesOn_widgetCall (n : Node) :
    (widgetCall n).PassesOn supplied fun call given => PassedOn given call.2 := by
  refine .procedureName fun routine => ?_
  refine PassesOn.bind ((passesOn_numberedValues _ _ _ _).mono fun arguments given ha => ?_)
  have handed := fun code mem slash => carries_passHandlers (qualified routine) (ha code mem slash)
  have joined := passedOn_intercalate handed ", "
  show PassedOn _ _
  grind

theorem passesOn_widgetsCallReturn : (widgetsCallReturn n).PassesOn supplied Emitted.PassesOn := by
  refine PassesOn.bind ((passesOn_widgetCall n).mono fun call given hc => ?_)
  dsimp only
  split
  · show PassedOn _ _
    grind
  · show PassedOn _ _
    grind

end Template

/-- Kinds whose code is an expression made of the code in their inputs. -/
def Kind.isExpression : Kind → Bool
  | .controlsIf | .controlsIfElse | .mathChange | .textAppend | .textPrint | .listsSetIndex
  | .variablesSet | .variablesSetDynamic | .proceduresDefReturn | .proceduresDefNoReturn
  | .proceduresCallNoReturn | .proceduresIfReturn | .forever | .wait | .digitalTogglePin
  | .digitalWritePin | .onStart | .app | .label | .button | .widgetsDefReturn
  | .widgetsDefNoReturn | .widgetsCallNoReturn | .widgetsIfReturn => false
  | _ => true

/-- An expression passes on all that it is given, if a test for divisibility has a divisor. -/
theorem Kind.passesOn {kind : Kind} (h : kind.isExpression = true) {supplied : String → Prop}
    {n : Node} (divided : kind = .mathNumberProperty →
      n.field "PROPERTY" = some "DIVISIBLE_BY" → supplied "DIVISOR") (o : Options) :
    (kind.script o n).PassesOn supplied Emitted.PassesOn := by
  open Template in
  cases kind with
  | logicCompare => exact passesOn_logicCompare
  | logicOperation => exact passesOn_logicOperation
  | logicNegate => exact passesOn_logicNegate
  | logicBoolean => exact passesOn_logicBoolean
  | logicTernary => exact passesOn_logicTernary
  | mathNumber => exact passesOn_mathNumber
  | mathArithmetic => exact passesOn_mathArithmetic
  | mathSingle | mathRound | mathTrig => exact passesOn_mathSingle
  | mathConstant => exact passesOn_mathConstant
  | mathNumberProperty => exact passesOn_mathNumberProperty (divided rfl)
  | mathOnList => exact passesOn_mathOnList
  | mathModulo => exact passesOn_mathModulo
  | mathConstrain => exact passesOn_mathConstrain
  | mathRandomInt => exact passesOn_mathRandomInt
  | mathAtan2 => exact passesOn_mathAtan2
  | textJoin => exact passesOn_textJoin
  | textLength => exact passesOn_sequenceLength .text
  | textIsEmpty => exact passesOn_sequenceIsEmpty .text
  | textIndexOf => exact passesOn_sequenceIndexOf .text
  | textCharAt => exact passesOn_textCharAt
  | textGetSubstring => exact passesOn_textGetSubstring
  | textChangeCase => exact passesOn_textChangeCase
  | textTrim => exact passesOn_textTrim
  | textPrompt | textPromptExt => exact passesOn_textPrompt
  | textCount => exact passesOn_textCount
  | textReplace => exact passesOn_textReplace
  | textReverse => exact passesOn_textReverse
  | listsCreateWith => exact passesOn_listsCreateWith
  | listsRepeat => exact passesOn_listsRepeat
  | listsLength => exact passesOn_sequenceLength .list
  | listsIsEmpty => exact passesOn_sequenceIsEmpty .list
  | listsIndexOf => exact passesOn_sequenceIndexOf .list
  | listsGetIndex => exact passesOn_listsGetIndex
  | listsGetSublist => exact passesOn_listsGetSublist
  | listsSort => exact passesOn_listsSort
  | listsSplit => exact passesOn_listsSplit
  | listsReverse => exact passesOn_listsReverse
  | colourRandom => exact passesOn_colourRandom
  | colourRgb => exact passesOn_colourRgb
  | colourBlend => exact passesOn_colourBlend
  | coap => exact passesOn_coap
  | field => exact passesOn_field
  | digitalReadPin => exact passesOn_digitalReadPin
  | proceduresCallReturn => exact passesOn_proceduresCallReturn
  | widgetsCallReturn => exact passesOn_widgetsCallReturn
  | mathRandomFloat => exact .require (passesOn_nil _)
  | logicNull | text | textMultiline | listsCreateEmpty | colourPicker =>
      exact passesOn_nil _
  | variablesGet | variablesGetDynamic => exact .variableName fun _ => passesOn_nil _
  | _ => cases h

end BlockScript
