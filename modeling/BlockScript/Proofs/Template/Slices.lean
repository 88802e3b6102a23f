import BlockScript.Proofs.Expression.Calls
import BlockScript.Proofs.Rendering.Runs
import BlockScript.Proofs.Template.Collections
import BlockScript.Proofs.Template.Positions

/-! # Slices

A slice is taken by a method of the sequence or by a helper function, depending on the code of the
sequence. The two ask for the same indices, shift them differently, and count from the end in
different places: in the code of the call, or in the body of the function. Both take the same slice,
of a sequence of any length and for any indices. -/

namespace BlockScript

open Text Names Number Template Script

universe u

/-! ### The helper function -/

/-- What a branch of the function does with the index: it is computed anew, or refused. -/
inductive IndexStep where
  | assign (code : String)
  | refuse (message : String)

/-- A branch for one option, or for all others. -/
structure IndexBranch where
  others : Bool := false
  option : String
  step : IndexStep

/-- A function that finds the ends of a slice and takes it. Both ends are found by the function
`getAt` in it, which goes through the branches. -/
structure SliceFunction where
  /-- The type of the sequence. -/
  type : String
  sequence : String
  method : String
  branches : List IndexBranch
  start : String
  stop : String

def IndexStep.line : IndexStep → String
  | assign code => "at = " ++ code ++ ";"
  | refuse message => "throw '" ++ message ++ "';"

def IndexBranch.lines (opening : String) (branch : IndexBranch) : List String :=
  ["    " ++ opening ++ "if (where " ++ (if branch.others then "!=" else "==") ++ " '" ++
      branch.option ++ "') \x7b",
    "      " ++ branch.step.line]

/-- The lines of the branches, chained with `else`. -/
def SliceFunction.branchLines : List IndexBranch → List String
  | [] => []
  | first :: rest => first.lines "" ++ rest.flatMap (·.lines "\x7d else ") ++ ["    \x7d"]

/-- The lines of the function. -/
def SliceFunction.lines (f : SliceFunction) : List String :=
  [f.type ++ " " ++ Definitions.namePlaceholder ++ "(" ++ f.type ++ " " ++ f.sequence ++
      ", String where1, num at1, String where2, num at2) \x7b",
    "  int getAt(String where, num at) \x7b"] ++ branchLines f.branches ++
  ["    return at;",
    "  \x7d",
    "  at1 = " ++ f.start ++ ";",
    "  at2 = " ++ f.stop ++ ";",
    "  return " ++ f.sequence ++ "." ++ f.method ++ "(at1, at2);",
    "\x7d"]

/-- The function for slices of a kind of sequences. -/
def Template.SequenceKind.sliceFunction (kind : SequenceKind) : SliceFunction :=
  let sequence := match kind with
    | text => "text"
    | list => "list"
  { type := match kind with
      | text => "String"
      | list => "List"
    sequence
    method := kind.sliceMethod
    branches :=
      [{ option := Position.fromEnd.name, step := .assign (sequence ++ ".length - 1 - at") },
        { option := Position.first.name, step := .assign "0" },
        { option := Position.last.name, step := .assign (sequence ++ ".length - 1") },
        { others := true, option := Position.fromStart.name
          step := .refuse (match kind with
            | text => "Unhandled option (text_getSubstring)."
            | list => "Unhandled option (lists_getSublist).") }]
    start := "getAt(where1, at1)"
    stop := "getAt(where2, at2) + 1" }

/-- The lines are those of the template. -/
theorem template_sliceHelper (kind : SequenceKind) :
    kind.sliceHelper.template = kind.sliceFunction.lines := by
  cases kind <;> decide +kernel

section Meaning
variable {R : Type u} [CommRing R]

/-- The value of code, if it is read as an expression with one. -/
def Arithmetic.valueOf (a : Arithmetic R) (atom : Expression → Option R) (code : String) :
    Option R :=
  (parse (lex code.toList)).bind (a.valueWith atom)

def IndexBranch.holds (branch : IndexBranch) (option : String) : Bool :=
  if branch.others then option ≠ branch.option else option = branch.option

namespace SliceFunction

/-- The length is the only member of the sequence that is asked for. -/
def lengthIn (f : SliceFunction) (length : R) : Expression → Option R
  | .member (.name owner) "length" => if owner = f.sequence then some length else none
  | _ => none

/-- What `getAt` makes of an option and an index. -/
def getAt (f : SliceFunction) (a : Arithmetic R) (length : R) (option : String) (index : R) :
    Option R :=
  match f.branches.find? (·.holds option) with
  | none => some index
  | some branch =>
      match branch.step with
      | .assign code => (a.assign "at" index).valueOf (f.lengthIn length) code
      | .refuse _ => none

/-- The calls of `getAt`, with the options and the numbers that names stand for. -/
def callsIn (f : SliceFunction) (a : Arithmetic R) (length : R) (options : Table String) :
    Expression → Option R
  | .call (.name "getAt") [.name option, .name index] =>
      (options.get? option).bind fun option => f.getAt a length option (a.name index)
  | _ => none

/-- Where the slice starts and where it stops, for the arguments of the function. -/
def run (f : SliceFunction) (a : Arithmetic R) (length : R) (where1 : String) (at1 : R)
    (where2 : String) (at2 : R) : Option (R × R) := do
  let options : Table String := [("where1", where1), ("where2", where2)]
  let locals := (a.assign "at1" at1).assign "at2" at2
  let start ← locals.valueOf (f.callsIn locals length options) f.start
  let locals := locals.assign "at1" start
  let stop ← locals.valueOf (f.callsIn locals length options) f.stop
  some (start, stop)

end SliceFunction

/-! Positions. -/

/-- The place of an element, counted from zero, for an index as the user counts. -/
def Template.Position.place (o : Options) (length index : R) : Position → R
  | .fromStart => index - o.firstIndexValue
  | .fromEnd => length - 1 - (index - o.firstIndexValue)
  | .last => length - 1
  | .first | .random => 0

/-! The function computes positions. -/

theorem Arithmetic.valueOf_eq (a : Arithmetic R) (atom : Expression → Option R) {code : String}
    {level : Precedence} {e : Expression} (h : Spells code level e) :
    a.valueOf atom code = a.valueWith atom e := by
  rw [valueOf, h.parse_eq, Option.bind_some]

theorem spells_one : Spells "1" .atomic (.numeral "1") :=
  Spells.numeral (isNumeral_of_all (by decide) (by decide))

theorem spells_zero : Spells "0" .atomic (.numeral "0") :=
  Spells.numeral (isNumeral_of_all (by decide) (by decide))

theorem Arithmetic.valueWith_one (a : Arithmetic R) (atom : Expression → Option R) :
    a.valueWith atom (.numeral "1") = some 1 := by
  have digits : "1".toList.all isAsciiDigit = true := by decide
  have value : digitsValue "1".toList = 1 := by decide
  rw [valueWith, if_pos digits, value, Nat.cast_one]

theorem Arithmetic.valueWith_zero (a : Arithmetic R) (atom : Expression → Option R) :
    a.valueWith atom (.numeral "0") = some 0 := by
  have digits : "0".toList.all isAsciiDigit = true := by decide
  have value : digitsValue "0".toList = 0 := by decide
  rw [valueWith, if_pos digits, value, Nat.cast_zero]

theorem Arithmetic.valueOf_zero (a : Arithmetic R) (atom : Expression → Option R) :
    a.valueOf atom "0" = some 0 := by
  rw [valueOf_eq a atom spells_zero, valueWith_zero]

/-- Less one, code has a value that is less by one. -/
theorem spells_lessOne {code : String} {e : Expression} (h : Spells code .additive e) :
    Spells (code ++ " - 1") .additive (.infixed .minus e (.numeral "1")) := by
  have text : code ++ " - 1" = code ++ " - " ++ "1" := by rw [String.append_assoc]; rfl
  rw [text]
  exact h.infixed_text .minus rfl (spells_one.mono (Nat.zero_le _))

namespace SliceFunction
variable (kind : SequenceKind) (a : Arithmetic R) (length index : R)

theorem spells_length (kind : SequenceKind) :
    SpellsPostfix (kind.sliceFunction.sequence ++ ".length")
      (.member (.name kind.sliceFunction.sequence) "length") := by
  have named : isIdentifier kind.sliceFunction.sequence.toList = true := by cases kind <;> decide
  have whole : Expression.ofWord kind.sliceFunction.sequence = .name kind.sliceFunction.sequence := by
    cases kind <;> rfl
  exact whole ▸ (SpellsPostfix.word named).length

omit [CommRing R] in
theorem lengthIn_length : kind.sliceFunction.lengthIn length
    (.member (.name kind.sliceFunction.sequence) "length") = some length :=
  if_pos rfl

/-- The length, less one, is where the last element is. -/
theorem spells_lastPlace (kind : SequenceKind) :
    Spells (kind.sliceFunction.sequence ++ ".length - 1") .additive (.infixed .minus
      (.member (.name kind.sliceFunction.sequence) "length") (.numeral "1")) := by
  have text : kind.sliceFunction.sequence ++ ".length - 1" =
      kind.sliceFunction.sequence ++ ".length" ++ " - 1" := by
    rw [String.append_assoc]
    rfl
  rw [text]
  exact spells_lessOne ((spells_length kind).spells.mono (by decide))

/-- The code that counts from the end. -/
theorem spells_fromLast (kind : SequenceKind) :
    Spells (kind.sliceFunction.sequence ++ ".length - 1 - at") .additive (.infixed .minus
      (.infixed .minus (.member (.name kind.sliceFunction.sequence) "length") (.numeral "1"))
      (.name "at")) := by
  have text : kind.sliceFunction.sequence ++ ".length - 1 - at" =
      kind.sliceFunction.sequence ++ ".length - 1" ++ " - " ++ "at" := by
    simp only [String.append_assoc]
    rfl
  have index : Spells "at" .atomic (.name "at") := Spells.word (by decide)
  rw [text]
  exact (spells_lastPlace kind).infixed_text .minus rfl (index.mono (Nat.zero_le _))

theorem valueWith_lastPlace :
    a.valueWith (kind.sliceFunction.lengthIn length) (.infixed .minus
      (.member (.name kind.sliceFunction.sequence) "length") (.numeral "1")) =
        some (length - 1) :=
  Arithmetic.valueWith_infixed (lengthIn_length kind length) (a.valueWith_one _)

/-- An index that counts from zero is turned into a place. -/
theorem getAt_eq (o : Options) {position : Position} (offered : position ≠ .random) :
    kind.sliceFunction.getAt a length position.name (index - o.firstIndexValue) =
      some (position.place o length index) := by
  let locals := a.assign "at" (index - o.firstIndexValue)
  cases position with
  | random => contradiction
  | fromStart => cases kind <;> rfl
  | fromEnd =>
      calc
        kind.sliceFunction.getAt a length Position.fromEnd.name _ =
            locals.valueOf (kind.sliceFunction.lengthIn length)
              (kind.sliceFunction.sequence ++ ".length - 1 - at") := by cases kind <;> rfl
        _ = locals.apply .minus (length - 1) (locals.name "at") := by
          rw [Arithmetic.valueOf_eq _ _ (spells_fromLast kind)]
          exact Arithmetic.valueWith_infixed (valueWith_lastPlace kind locals length) rfl
        _ = some (length - 1 - (index - o.firstIndexValue)) := by
          simp [Arithmetic.apply, locals, Arithmetic.assign]
  | first =>
      calc
        kind.sliceFunction.getAt a length Position.first.name _ =
            locals.valueOf (kind.sliceFunction.lengthIn length) "0" := by cases kind <;> rfl
        _ = some 0 := locals.valueOf_zero _
  | last =>
      calc
        kind.sliceFunction.getAt a length Position.last.name _ =
            locals.valueOf (kind.sliceFunction.lengthIn length)
              (kind.sliceFunction.sequence ++ ".length - 1") := by cases kind <;> rfl
        _ = some (length - 1) := by
          rw [Arithmetic.valueOf_eq _ _ (spells_lastPlace kind)]
          exact valueWith_lastPlace kind locals length

/-- A call of `getAt` finds a place, if the names stand for an option and an index. -/
theorem callsIn_eq (o : Options) {position : Position} (offered : position ≠ .random)
    {options : Table String} {option at_ : String}
    (shown : options.get? option = some position.name)
    (given : a.name at_ = index - o.firstIndexValue) :
    kind.sliceFunction.callsIn a length options
        (.call (.name "getAt") [.name option, .name at_]) = some (position.place o length index) := by
  rw [callsIn, shown, given]
  exact getAt_eq kind a length index o offered

theorem spells_getAt (option at_ : String) (named : isIdentifier option.toList = true)
    (named' : isIdentifier at_.toList = true) :
    Spells ("getAt(" ++ option ++ ", " ++ at_ ++ ")") .unaryPostfix
      (.call (.name "getAt") [.ofWord option, .ofWord at_]) := by
  have arguments : ∀ argument ∈ [(option, Expression.ofWord option), (at_, .ofWord at_)],
      Spells argument.1 .anything argument.2 := by
    simp only [List.forall_mem_cons]
    exact ⟨(Spells.word named).mono (by decide), (Spells.word named').mono (by decide), nofun⟩
  have function : SpellsPostfix "getAt" (.name "getAt") := SpellsPostfix.word (by decide)
  have text : "getAt(" = "getAt" ++ "(" := rfl
  simpa only [text, argumentText, List.map_cons, List.map_nil, String.append_assoc] using
    (function.call arguments).spells

theorem spells_start : Spells kind.sliceFunction.start .unaryPostfix
    (.call (.name "getAt") [.name "where1", .name "at1"]) :=
  spells_getAt "where1" "at1" (by decide) (by decide)

theorem spells_stop : Spells kind.sliceFunction.stop .additive (.infixed .plus
    (.call (.name "getAt") [.name "where2", .name "at2"]) (.numeral "1")) := by
  have call : Spells "getAt(where2, at2)" .additive
      (.call (.name "getAt") [.name "where2", .name "at2"]) :=
    (spells_getAt "where2" "at2" (by decide) (by decide)).mono (by decide)
  have text : kind.sliceFunction.stop = "getAt(where2, at2)" ++ " + " ++ "1" := by
    cases kind <;> rfl
  rw [text]
  exact call.infixed_text .plus rfl (spells_one.mono (Nat.zero_le _))

/-- For indices that count from zero, the function takes the slice between the places. -/
theorem run_eq (o : Options) {start stop : Position} (starts : start ≠ .random)
    (stops : stop ≠ .random) (i j : R) :
    kind.sliceFunction.run a length start.name (i - o.firstIndexValue) stop.name
        (j - o.firstIndexValue) = some (start.place o length i, stop.place o length j + 1) := by
  let options : Table String := [("where1", start.name), ("where2", stop.name)]
  let locals := (a.assign "at1" (i - o.firstIndexValue)).assign "at2" (j - o.firstIndexValue)
  have first : locals.valueOf (kind.sliceFunction.callsIn locals length options)
      kind.sliceFunction.start = some (start.place o length i) := by
    rw [Arithmetic.valueOf_eq _ _ (spells_start kind)]
    exact callsIn_eq kind locals length i o starts rfl rfl
  let locals' := locals.assign "at1" (start.place o length i)
  have last : locals'.valueOf (kind.sliceFunction.callsIn locals' length options)
      kind.sliceFunction.stop = some (stop.place o length j + 1) := by
    rw [Arithmetic.valueOf_eq _ _ (spells_stop kind)]
    exact Arithmetic.valueWith_infixed (callsIn_eq kind locals' length j o stops rfl rfl)
      (locals'.valueWith_one _)
  change (locals.valueOf (kind.sliceFunction.callsIn locals length options)
    kind.sliceFunction.start).bind _ = _
  rw [first, Option.bind_some]
  change (locals'.valueOf (kind.sliceFunction.callsIn locals' length options)
    kind.sliceFunction.stop).bind _ = _
  rw [last, Option.bind_some]

end SliceFunction

/-! ### Slices in code -/

/-- An end of a slice, as a method is told it. -/
inductive SliceEnd where
  | zero
  | ahead (code : String)
  | behind (code : String)

def SliceEnd.code (sequence : String) : SliceEnd → String
  | zero => "0"
  | ahead code => code
  | behind code => sequence ++ ".length - " ++ code

/-- The code of a slice, but for the sequence. -/
inductive SliceForm where
  | whole
  | method (start : SliceEnd) (stop : Option SliceEnd)
  | helper (name : String) (start stop : Position) (at1 at2 : String)

namespace SliceForm

def code (kind : SequenceKind) (sequence : String) : SliceForm → String
  | whole => sequence
  | method start stop =>
      sequence ++ "." ++ kind.sliceMethod ++ "(" ++
        argumentText ((start :: stop.toList).map (·.code sequence)) ++ ")"
  | helper given start stop at1 at2 =>
      given ++ "(" ++ sequence ++ ", '" ++ start.name ++ "', " ++ at1 ++ ", '" ++ stop.name ++
        "', " ++ at2 ++ ")"

/-- Of a sequence of some length, the code takes the slice from one place up to another. What a
method is told is read with any expression for the sequence; a stop that is left out is the end. A
helper gets both indices, and does what the lines of its template say. -/
def Takes (kind : SequenceKind) (a : Arithmetic R) (length start stop : R) : SliceForm → Prop
  | whole => start = 0 ∧ stop = length
  | method lower upper => ∀ sequence owner, SpellsPostfix sequence owner →
      ∀ atom : Expression → Option R, atom (.member owner "length") = some length →
        ∃ arguments, Spells (code kind sequence (method lower upper)) .unaryPostfix
            (.call (.member owner kind.sliceMethod) arguments) ∧
          (arguments.mapM (a.valueWith atom) = some [start, stop] ∨
            arguments.mapM (a.valueWith atom) = some [start] ∧ stop = length)
  | helper _ lower upper at1 at2 =>
      ∃ f : SliceFunction, kind.sliceHelper.template = f.lines ∧
        ∃ i j, a.valueOf (fun _ => none) at1 = some i ∧ a.valueOf (fun _ => none) at2 = some j ∧
          f.run a length lower.name i upper.name j = some (start, stop)

end SliceForm

/-- Whatever the sequence is, the code of an end tells the place. -/
def SliceEnd.Tells (a : Arithmetic R) (length place : R) (bound : SliceEnd) : Prop :=
  ∀ sequence owner, SpellsPostfix sequence owner →
    ∀ atom : Expression → Option R, atom (.member owner "length") = some length →
      ∃ e, Spells (bound.code sequence) .anything e ∧ a.valueWith atom e = some place

theorem SliceEnd.tells_zero (a : Arithmetic R) (length : R) : zero.Tells a length 0 :=
  fun _ _ _ atom _ => ⟨.numeral "0", spells_zero.mono (Nat.zero_le _), a.valueWith_zero atom⟩

theorem SliceEnd.tells_ahead {a : Arithmetic R} {code : String} {e : Expression} {place : R}
    (spells : Spells code .anything e) (value : a.value e = some place) (length : R) :
    (ahead code).Tells a length place :=
  fun _ _ _ atom _ => ⟨e, spells, a.valueWith_of_value atom value⟩

/-- A place that is counted from the end. -/
theorem SliceEnd.tells_behind {a : Arithmetic R} {code : String} {e : Expression} {index : R}
    (spells : Spells code subtrahend e) (value : a.value e = some index) (length : R) :
    (behind code).Tells a length (length - index) := by
  intro sequence owner h atom known
  have text : SliceEnd.code sequence (.behind code) =
      sequence ++ ".length" ++ " - " ++ code := by
    have split : ".length - " = ".length" ++ " - " := rfl
    simp only [SliceEnd.code, split, String.append_assoc]
  have measured : Spells (sequence ++ ".length") .additive (.member owner "length") :=
    h.length.spells.mono (by decide)
  have whole : Spells (sequence ++ ".length" ++ " - " ++ code) .additive
      (.infixed .minus (.member owner "length") e) := measured.infixed_text .minus rfl spells
  refine ⟨_, text ▸ whole.mono (by decide), ?_⟩
  exact Arithmetic.valueWith_infixed known (a.valueWith_of_value atom value)

/-- A method takes the slice that its arguments say. -/
theorem SliceForm.takes_method {kind : SequenceKind} {a : Arithmetic R} {length start stop : R}
    {lower : SliceEnd} {upper : Option SliceEnd} (starts : lower.Tells a length start)
    (stops : ∀ bound ∈ upper, bound.Tells a length stop) (ends : upper = none → stop = length) :
    (method lower upper).Takes kind a length start stop := by
  intro sequence owner h atom known
  obtain ⟨e, spells, value⟩ := starts sequence owner h atom known
  have method_ : isIdentifier kind.sliceMethod.toList = true := by cases kind <;> decide
  cases upper with
  | none =>
      have arguments : ∀ argument ∈ [(lower.code sequence, e)],
          Spells argument.1 .anything argument.2 := List.forall_mem_singleton.mpr spells
      have call := (h.member method_).call arguments
      refine ⟨[e], call.spells, .inr ⟨?_, ends rfl⟩⟩
      simp [value]
  | some bound =>
      obtain ⟨e', spells', value'⟩ := stops bound rfl sequence owner h atom known
      have arguments : ∀ argument ∈ [(lower.code sequence, e), (bound.code sequence, e')],
          Spells argument.1 .anything argument.2 :=
        List.forall_mem_cons.mpr ⟨spells, List.forall_mem_singleton.mpr spells'⟩
      have call := (h.member method_).call arguments
      refine ⟨[e, e'], call.spells, .inl ?_⟩
      simp [value, value']

end Meaning

namespace Script.Runs
variable {α β : Type} {o : Options} {s : Surroundings} {r : Records} {ledger mid after : Ledger}

/-- The runs of two scripts, one after the other. -/
theorem bind {script : Script α} {f : α → Script β} {a : α} {b : β} {front rest : List Event}
    (h : script.Runs o s r ledger a mid front) (h' : (f a).Runs o s r mid b after rest) :
    (script >>= f).Runs o s r ledger b after (front ++ rest) where
  run := by
    rw [run_bind, Pass.andThen_of_ok h.run]
    exact h'.run
  events := by
    rw [events_bind, h.events, Pass.eventsAfter, h.run]
    exact congrArg (front ++ ·) h'.events

theorem done (a : α) : (Script.done a).Runs o s r ledger a ledger [] := ⟨rfl, rfl⟩

end Script.Runs

namespace Block

/-! ### Indices -/

/-- An index is a tree of arithmetic on whole numbers, or missing. -/
def HasIndex (b : Block) (input : String) : Prop :=
  ∀ child, b.value? input = some child → child.IsArithmetic

/-- The events in the inputs of a block. -/
abbrev records (o : Options) (b : Block) : Records :=
  ⟨inputEvents o true b.values, inputEvents o false b.statements⟩

/-- Code is the index of an input, as variables are named, with a number added. -/
def IsIndexCode (o : Options) (b : Block) (input : String) (shift : Int) (level : Precedence)
    (names : String → String) (code : String) : Prop :=
  ∃ e, Spells code level e ∧ ∀ (R : Type u) [CommRing R] (a : Arithmetic R),
    a.value e = (a.indexValue o (argument names b.values input)).map (· + (shift : R))

variable {o : Options} {b : Block} {input remarks : String} {ledger : Ledger}

/-- An index is given as what it denotes. -/
theorem HasIndex.gives (h : b.HasIndex input) (names : String → String) (level : Precedence)
    (remarks : String) :
    ((b.surroundings o remarks).valueIn input level).Gives
      (eventsIn (b.records o).values input) False fun code es => Named names es →
        ∃ e, Spells (code.getD o.firstIndex) level e ∧ e.IsArithmetic ∧
          ∀ (R : Type u) [CommRing R] (a : Arithmetic R),
            a.value e = a.indexValue o (argument names b.values input) := by
  obtain ⟨first, spelled, known, value⟩ := exists_firstIndex.{u} o
  have fits : Spells (none.getD o.firstIndex) level first := spelled.mono (Nat.zero_le _)
  apply gives_valueIn
  · intro missing _
    rw [argument, missing]
    exact ⟨first, fits, known, value⟩
  · intro child plugged
    have denoted : argument names b.values input = child.meaning names := by
      rw [argument, plugged, Option.bind_some]
    have arithmetic := h child plugged
    refine (gives_meaning o names child arithmetic.isExpression).mono fun emitted es means => ?_
    rw [denoted]
    cases meant : child.meaning names with
    | none =>
        rw [meant] at means
        obtain rfl := means
        exact fun _ => ⟨first, fits, known, value⟩
    | some e =>
        rw [meant] at means
        obtain ⟨code, inner, rfl, stands⟩ := means
        intro named
        obtain ⟨read, spells, same⟩ := stands named
        have given := arithmetic.meaning names e meant
        obtain rfl := same.eq_of_isArithmetic.2 given
        rw [if_neg spells.ne_empty]
        exact ⟨read, spells.wrap level, given, fun R _ a => rfl⟩

/-- An index is asked for, shifted, and is the one in the input. -/
theorem HasIndex.runs (h : b.HasIndex input) (delta : Int) (required : Precedence)
    (loose : Precedence.unaryPrefix.rank ≤ required.rank) (remarks : String) (ledger : Ledger) :
    ∃ code after, (adjustedIndex o input delta required).Runs o (b.surroundings o remarks)
        (b.records o) ledger code after (eventsIn (b.records o).values input ledger) ∧
      ∀ names, Named names (eventsIn (b.records o).values input ledger) →
        b.IsIndexCode.{u} o input (indexShift o delta) required names code := by
  have gives (names : String → String) :=
    h.gives.{u} (o := o) names (indexLevel (indexShift o delta) required) remarks ledger
  rcases run : (b.surroundings o remarks).valueIn input
      (indexLevel (indexShift o delta) required) ledger with ⟨error | code, after⟩
  · simp only [run] at gives
    exact (gives id).elim
  · simp only [run] at gives
    refine ⟨shiftIndex (code.getD o.firstIndex) (indexShift o delta) required, after, ⟨?_, ?_⟩, ?_⟩
    · exact Pass.andThen_of_ok run
    · change _ ++ Pass.eventsAfter ((b.surroundings o remarks).valueIn input
        (indexLevel (indexShift o delta) required)) _ ledger = _
      rw [Pass.eventsAfter, run]
      exact List.append_nil _
    · intro names named
      obtain ⟨e, spells, arithmetic, value⟩ := gives names named
      obtain ⟨read, shifted, value'⟩ := exists_spells_shiftIndex.{u} loose spells arithmetic
      refine ⟨read, shifted, fun R _ a => ?_⟩
      rw [value' R a, value R a]

/-! ### Both forms -/

/-- The shift counts from zero and adds the number. -/
theorem cast_indexShift (o : Options) (delta : Int) (R : Type u) [CommRing R] :
    ((indexShift o delta : Int) : R) = delta - o.firstIndexValue := by
  unfold indexShift Options.firstIndexValue
  split <;> simp

/-- Whatever the indices in the inputs are, as variables are named, a slice goes from the place of
the one up to the place of the other, and with it. -/
def TakesSlice (o : Options) (b : Block) (kind : SequenceKind) (start stop : Position)
    (names : String → String) (form : SliceForm) : Prop :=
  ∀ (R : Type u) [CommRing R] (a : Arithmetic R) (length i j : R),
    a.indexValue o (argument names b.values "AT1") = some i →
    a.indexValue o (argument names b.values "AT2") = some j →
    form.Takes kind a length (start.place o length i) (stop.place o length j + 1)

/-- The code of the stop of a slice, if it is not left out. -/
def sliceStop (o : Options) (sequence : String) : Position → Script (Option String)
  | .fromStart => do
      let at2 ← adjustedIndex o "AT2" 1 .anything
      done (some at2)
  | .fromEnd => do
      let at2 ← adjustedIndex o "AT2" 0 subtrahend
      done (some (sequence ++ ".length - " ++ at2))
  | _ => done none

theorem directSlice_eq (kind : SequenceKind) (o : Options) (sequence : String)
    (start stop : Position) :
    directSlice kind o sequence start stop =
      sliceStart o sequence start >>= fun at1 => sliceStop o sequence stop >>= fun at2 =>
        postfixValue (sequence ++ "." ++ kind.sliceMethod ++ "(" ++
          argumentText (at1 :: at2.toList) ++ ")") := by
  unfold directSlice
  cases stop <;> simp [sliceStop, argumentText, String.append_assoc]

variable {kind : SequenceKind} {start stop : Position}

/-- The code of the start tells the place of the first index. -/
theorem HasIndex.runs_sliceStart (h : b.HasIndex "AT1") (starts : start.startsSlice)
    (remarks : String) (ledger : Ledger) :
    ∃ (bound : SliceEnd) (after : Ledger) (es : List Event),
      (∀ sequence, (sliceStart o sequence start).Runs o (b.surroundings o remarks) (b.records o)
        ledger (bound.code sequence) after es) ∧
      ∀ names, Named names es → ∀ (R : Type u) [CommRing R] (a : Arithmetic R) (length i : R),
        a.indexValue o (argument names b.values "AT1") = some i →
          bound.Tells a length (start.place o length i) := by
  cases start with
  | last | random => contradiction
  | first =>
      refine ⟨.zero, ledger, [], fun sequence => .done _, fun names _ R _ a length i _ => ?_⟩
      exact SliceEnd.tells_zero a length
  | fromStart =>
      obtain ⟨code, after, runs, index⟩ :=
        h.runs.{u} (o := o) 0 .anything (by decide) remarks ledger
      refine ⟨.ahead code, after, _, fun sequence => runs, fun names named R _ a length i known => ?_⟩
      obtain ⟨e, spells, value⟩ := index names named
      refine SliceEnd.tells_ahead spells ?_ length
      rw [value R a, known, cast_indexShift]
      simp [Position.place, sub_eq_add_neg]
  | fromEnd =>
      obtain ⟨code, after, runs, index⟩ :=
        h.runs.{u} (o := o) 1 subtrahend (by decide) remarks ledger
      refine ⟨.behind code, after, _, fun sequence => runs.bind (.done _), ?_⟩
      intro names named R _ a length i known
      obtain ⟨e, spells, value⟩ := index names named.left
      have place : length - 1 - (i - o.firstIndexValue) =
          length - (i + ((indexShift o 1 : Int) : R)) := by
        rw [cast_indexShift]
        push_cast
        ring
      rw [Position.place, place]
      refine SliceEnd.tells_behind spells ?_ length
      rw [value R a, known]
      rfl

/-- The code of the stop tells the place behind the second index. -/
theorem HasIndex.runs_sliceStop (h : b.HasIndex "AT2") (stops : stop.endsSlice)
    (remarks : String) (ledger : Ledger) :
    ∃ (bound : Option SliceEnd) (after : Ledger) (es : List Event),
      (∀ sequence, (sliceStop o sequence stop).Runs o (b.surroundings o remarks) (b.records o)
        ledger (bound.map (·.code sequence)) after es) ∧
      ∀ names, Named names es → ∀ (R : Type u) [CommRing R] (a : Arithmetic R) (length j : R),
        a.indexValue o (argument names b.values "AT2") = some j →
          (∀ e ∈ bound, e.Tells a length (stop.place o length j + 1)) ∧
            (bound = none → stop.place o length j + 1 = length) := by
  cases stop with
  | first | random => contradiction
  | last =>
      refine ⟨none, ledger, [], fun sequence => .done _, fun names _ R _ a length j _ => ?_⟩
      exact ⟨nofun, fun _ => sub_add_cancel length 1⟩
  | fromStart =>
      obtain ⟨code, after, runs, index⟩ :=
        h.runs.{u} (o := o) 1 .anything (by decide) remarks ledger
      refine ⟨some (.ahead code), after, _, fun sequence => runs.bind (.done _), ?_⟩
      intro names named R _ a length j known
      obtain ⟨e, spells, value⟩ := index names named.left
      refine ⟨?_, nofun⟩
      rintro _ ⟨rfl⟩
      refine SliceEnd.tells_ahead spells ?_ length
      rw [value R a, known, cast_indexShift]
      simp only [Option.map_some, Position.place, Int.cast_one]
      congr 1
      ring
  | fromEnd =>
      obtain ⟨code, after, runs, index⟩ :=
        h.runs.{u} (o := o) 0 subtrahend (by decide) remarks ledger
      refine ⟨some (.behind code), after, _, fun sequence => runs.bind (.done _), ?_⟩
      intro names named R _ a length j known
      obtain ⟨e, spells, value⟩ := index names named.left
      have place : length - 1 - (j - o.firstIndexValue) + 1 =
          length - (j + ((indexShift o 0 : Int) : R)) := by
        rw [cast_indexShift]
        push_cast
        ring
      refine ⟨?_, nofun⟩
      rintro _ ⟨rfl⟩
      rw [Position.place, place]
      refine SliceEnd.tells_behind spells ?_ length
      rw [value R a, known]
      rfl

/-- A slice by a method. -/
theorem runs_directSlice (at1 : b.HasIndex "AT1") (at2 : b.HasIndex "AT2")
    (starts : start.startsSlice) (stops : stop.endsSlice) (kind : SequenceKind) (remarks : String)
    (ledger : Ledger) :
    ∃ (lower : SliceEnd) (upper : Option SliceEnd) (after : Ledger) (es : List Event),
      (∀ sequence, (directSlice kind o sequence start stop).Runs o (b.surroundings o remarks)
        (b.records o) ledger (.value ((SliceForm.method lower upper).code kind sequence)
          .unaryPostfix) after es) ∧
      ∀ names, Named names es → b.TakesSlice.{u} o kind start stop names (.method lower upper) := by
  obtain ⟨lower, mid, es, runs, tells⟩ := at1.runs_sliceStart.{u} (o := o) starts remarks ledger
  obtain ⟨upper, after, es', runs', tells'⟩ := at2.runs_sliceStop.{u} (o := o) stops remarks mid
  refine ⟨lower, upper, after, es ++ (es' ++ []), fun sequence => ?_, ?_⟩
  · rw [directSlice_eq]
    refine (runs sequence).bind ((runs' sequence).bind ?_)
    have arguments : lower.code sequence :: (upper.map (·.code sequence)).toList =
        (lower :: upper.toList).map (·.code sequence) := by
      cases upper <;> rfl
    rw [arguments]
    exact .done _
  · intro names named R _ a length i j known known'
    obtain ⟨stops, ends⟩ := tells' names named.right.left R a length j known'
    exact SliceForm.takes_method (tells names named.left R a length i known) stops ends

/-- A slice by a helper. -/
theorem runs_helperSlice (at1 : b.HasIndex "AT1") (at2 : b.HasIndex "AT2")
    (starts : start.startsSlice) (stops : stop.endsSlice) (kind : SequenceKind) (remarks : String)
    (ledger : Ledger) :
    ∃ (given code1 code2 : String) (after : Ledger) (es : List Event),
      (∀ sequence, (helperSlice kind o sequence start stop).Runs o (b.surroundings o remarks)
        (b.records o) ledger (.value ((SliceForm.helper given start stop code1 code2).code kind
          sequence) .unaryPostfix) after es) ∧
      .helper kind.sliceHelper given ∈ es ∧
      ∀ names, Named names es →
        b.TakesSlice.{u} o kind start stop names (.helper given start stop code1 code2) := by
  obtain ⟨code1, mid, runs1, index1⟩ :=
    at1.runs.{u} (o := o) 0 .anything (by decide) remarks ledger
  obtain ⟨code2, last, runs2, index2⟩ :=
    at2.runs.{u} (o := o) 0 .anything (by decide) remarks mid
  let given := (last.provide kind.sliceHelper o.indent).1
  have named : (helperName kind.sliceHelper).Runs o (b.surroundings o remarks) (b.records o) last
      given (last.provide kind.sliceHelper o.indent).2 [.helper kind.sliceHelper given] := ⟨rfl, rfl⟩
  refine ⟨given, code1, code2, _, _, fun sequence => runs1.bind (runs2.bind (named.bind (.done _))),
    by simp, ?_⟩
  intro names named R _ a length i j known known'
  obtain ⟨e, spells, value⟩ := index1 names named.left
  obtain ⟨e', spells', value'⟩ := index2 names named.right.left
  have shifted (k : R) : k + ((indexShift o 0 : Int) : R) = k - o.firstIndexValue := by
    rw [cast_indexShift, Int.cast_zero, zero_sub, sub_eq_add_neg]
  refine ⟨kind.sliceFunction, template_sliceHelper kind, i - o.firstIndexValue,
    j - o.firstIndexValue, ?_, ?_, ?_⟩
  · rw [Arithmetic.valueOf_eq _ _ spells]
    refine a.valueWith_of_value _ ?_
    rw [value R a, known, Option.map_some, shifted]
  · rw [Arithmetic.valueOf_eq _ _ spells']
    refine a.valueWith_of_value _ ?_
    rw [value' R a, known', Option.map_some, shifted]
  · refine SliceFunction.run_eq kind a length o ?_ ?_ i j
    · rintro rfl
      contradiction
    · rintro rfl
      contradiction

end Block

/-! ### The blocks -/

namespace Template.SequenceKind

/-- The kind of the blocks that slice such sequences. -/
def sliceKind : SequenceKind → Kind
  | text => .textGetSubstring
  | list => .listsGetSublist

/-- The level that the sequence is asked for at. A text may be passed on as it is. -/
def sliceLevel (start stop : Position) : SequenceKind → Precedence
  | text => if needsNoLength start stop then .unaryPostfix else .anything
  | list => .unaryPostfix

end Template.SequenceKind

/-- The form that a block chooses: a text from the first letter to the last is itself, and a method is
called where that evaluates the sequence once. -/
def SliceForm.IsChosen (kind : SequenceKind) (sequence : String) (start stop : Position) :
    SliceForm → Prop
  | whole => kind = .text ∧ start = .first ∧ stop = .last
  | method _ _ => ¬ (kind = .text ∧ start = .first ∧ stop = .last) ∧
      (kind.isRepeatable sequence = true ∨ needsNoLength start stop = true)
  | helper _ _ _ _ _ => ¬ (kind = .text ∧ start = .first ∧ stop = .last) ∧
      kind.isRepeatable sequence = false ∧ needsNoLength start stop = false

/-- The script of a block that slices. -/
theorem script_sliceKind {n : Node} (o : Options) (kind : SequenceKind) {start stop : Position}
    (starts : start.startsSlice) (stops : stop.endsSlice)
    (first : n.field "WHERE1" = some start.name) (last : n.field "WHERE2" = some stop.name) :
    kind.sliceKind.script o n =
      valueOr kind.sliceInput (kind.sliceLevel start stop) kind.empty >>= fun sequence =>
        if kind = .text ∧ start = .first ∧ stop = .last then done (.value sequence .anything)
        else sliceOf kind o sequence start stop := by
  have ends := sliceEnds_of_options starts stops first last
  cases kind with
  | text =>
      change textGetSubstring o n = _
      rw [textGetSubstring, ends]
      simp [SequenceKind.sliceLevel]
  | list =>
      change listsGetSublist o n = _
      rw [listsGetSublist, ends]
      simp [SequenceKind.sliceLevel]

namespace Block
variable {o : Options} {b : Block} {kind : SequenceKind} {start stop : Position} {ledger : Ledger}

/-- Names are in the end as they were given out in a run. -/
theorem coherent_of_runs {α : Type} {script : Script α} {remarks : String} {a : α} {after : Ledger}
    {es : List Event} (reachable : Ledger.Reachable o.indent ledger)
    (runs : script.Runs o (b.surroundings o remarks) (b.records o) ledger a after es) :
    Ledger.Coherent es after := by
  have steps := Script.steps_run (b.tell o remarks) script ledger
  rw [runs.run, runs.events] at steps
  exact reachable.coherent.steps steps

/-- A step emits a form of the slice of a sequence, and calls no function but the helper. Whatever the
indices are, the form takes the slice from the place of the first one up to the place of the second
one, and with it. -/
def EmitsSlice (o : Options) (b : Block) (kind : SequenceKind) (start stop : Position)
    (sequence : String) (form : SliceForm) (step : Except GenerateError Emitted × Ledger) : Prop :=
  ∃ level after, step = (.ok (.value (form.code kind sequence) level), after) ∧
    (∀ called lower upper code1 code2, form = .helper called lower upper code1 code2 →
      after.definitions.helperNames.get? kind.sliceHelper.key = some called) ∧
    b.TakesSlice.{u} o kind start stop (after.names.answer .variableName) form

theorem emits_directSlice (at1 : b.HasIndex "AT1") (at2 : b.HasIndex "AT2")
    (starts : start.startsSlice) (stops : stop.endsSlice)
    (reachable : Ledger.Reachable o.indent ledger) (kind : SequenceKind) (remarks : String) :
    ∃ lower upper, ∀ sequence, b.EmitsSlice.{u} o kind start stop sequence (.method lower upper)
      ((directSlice kind o sequence start stop).run o (b.surroundings o remarks) ledger) := by
  obtain ⟨lower, upper, after, es, runs, takes⟩ :=
    runs_directSlice.{u} (o := o) at1 at2 starts stops kind remarks ledger
  refine ⟨lower, upper, fun sequence => ⟨_, after, (runs sequence).run, nofun, ?_⟩⟩
  exact takes _ (.of_coherent (coherent_of_runs reachable (runs sequence)))

theorem emits_helperSlice (at1 : b.HasIndex "AT1") (at2 : b.HasIndex "AT2")
    (starts : start.startsSlice) (stops : stop.endsSlice)
    (reachable : Ledger.Reachable o.indent ledger) (kind : SequenceKind) (remarks : String) :
    ∃ called code1 code2, ∀ sequence,
      b.EmitsSlice.{u} o kind start stop sequence (.helper called start stop code1 code2)
        ((helperSlice kind o sequence start stop).run o (b.surroundings o remarks) ledger) := by
  obtain ⟨called, code1, code2, after, es, runs, asked, takes⟩ :=
    runs_helperSlice.{u} (o := o) at1 at2 starts stops kind remarks ledger
  refine ⟨called, code1, code2, fun sequence => ⟨_, after, (runs sequence).run, ?_, ?_⟩⟩
  · rintro _ _ _ _ _ ⟨rfl⟩
    exact (coherent_of_runs reachable (runs sequence)).helped asked
  · exact takes _ (.of_coherent (coherent_of_runs reachable (runs sequence)))

/-- A whole text is its slice from the first letter to the last. -/
theorem takesSlice_whole (o : Options) (b : Block) (kind : SequenceKind) (names : String → String) :
    b.TakesSlice.{u} o kind .first .last names .whole :=
  fun _ _ _ length _ _ _ _ => ⟨rfl, sub_add_cancel length 1⟩

theorem emits_whole (o : Options) (b : Block) (kind : SequenceKind) (sequence : String)
    (ledger : Ledger) :
    b.EmitsSlice.{u} o kind .first .last sequence .whole
      ((done (.value sequence .anything)).run o (b.surroundings o "") ledger) := by
  refine ⟨.anything, ledger, rfl, ?_, takesSlice_whole o b kind _⟩
  intro called lower upper code1 code2 same
  cases same

/-- Whatever the sequence is, a slice by a method, one by a helper and the one that the block chooses
take the same slice. -/
theorem own_takes_slice (starts : start.startsSlice) (stops : stop.endsSlice)
    (first : b.node.field "WHERE1" = some start.name)
    (last : b.node.field "WHERE2" = some stop.name)
    (at1 : b.HasIndex "AT1") (at2 : b.HasIndex "AT2")
    (reachable : Ledger.Reachable o.indent ledger) {reply : Option String} {mid : Ledger}
    (given : codeIn o b.values kind.sliceInput (kind.sliceLevel start stop) ledger =
      (.ok reply, mid)) :
    (∃ lower upper, b.EmitsSlice.{u} o kind start stop (reply.getD kind.empty) (.method lower upper)
      ((directSlice kind o (reply.getD kind.empty) start stop).run o (b.surroundings o "") mid)) ∧
    (∃ called code1 code2, b.EmitsSlice.{u} o kind start stop (reply.getD kind.empty)
      (.helper called start stop code1 code2)
      ((helperSlice kind o (reply.getD kind.empty) start stop).run o (b.surroundings o "") mid)) ∧
    ∃ form : SliceForm, form.IsChosen kind (reply.getD kind.empty) start stop ∧
      b.EmitsSlice.{u} o kind start stop (reply.getD kind.empty) form
        (b.own o kind.sliceKind ledger) := by
  have between : Ledger.Reachable o.indent mid := by
    have steps := (b.tell o "").values kind.sliceInput (kind.sliceLevel start stop) ledger
    change Ledger.Steps _ _ _ (codeIn o b.values kind.sliceInput _ ledger).2 at steps
    rw [given] at steps
    exact reachable.of_steps steps
  have direct (remarks : String) :=
    emits_directSlice.{u} (o := o) at1 at2 starts stops between kind remarks
  have helper (remarks : String) :=
    emits_helperSlice.{u} (o := o) at1 at2 starts stops between kind remarks
  obtain ⟨lower, upper, emits⟩ := direct ""
  obtain ⟨called, code1, code2, emits'⟩ := helper ""
  refine ⟨⟨lower, upper, emits _⟩, ⟨called, code1, code2, emits' _⟩, ?_⟩
  have own : b.own o kind.sliceKind ledger =
      (if kind = .text ∧ start = .first ∧ stop = .last then
          done (.value (reply.getD kind.empty) .anything)
        else sliceOf kind o (reply.getD kind.empty) start stop).run o
          (b.surroundings o (remarkLines kind.sliceKind b.node b.values)) mid := by
    rw [Block.own, script_sliceKind o kind starts stops first last]
    exact Pass.andThen_of_ok given
  rw [own]
  by_cases whole : kind = .text ∧ start = .first ∧ stop = .last
  · refine ⟨.whole, whole, ?_⟩
    rw [if_pos whole]
    obtain ⟨rfl, rfl, rfl⟩ := whole
    exact emits_whole o b .text (reply.getD SequenceKind.text.empty) mid
  · rw [if_neg whole, sliceOf]
    by_cases once : kind.isRepeatable (reply.getD kind.empty) || needsNoLength start stop
    · rw [if_pos once]
      obtain ⟨lower, upper, emits⟩ := direct (remarkLines kind.sliceKind b.node b.values)
      exact ⟨.method lower upper, ⟨whole, by simpa using once⟩, emits _⟩
    · rw [if_neg once]
      obtain ⟨called, code1, code2, emits⟩ := helper (remarkLines kind.sliceKind b.node b.values)
      exact ⟨.helper called start stop code1 code2, ⟨whole, by simpa using once⟩, emits _⟩

/-- The last elements of a list, as many as a variable tells. -/
def lastElements : Block :=
  let get (raw : String) : Block :=
    { node := { id := raw, kindName := "variables_get", fields := [("VAR", raw)] } }
  { node := { id := "s", kindName := "lists_getSublist"
              fields := [("WHERE1", "FROM_END"), ("WHERE2", "LAST")] }
    values := [("LIST", get "xs"), ("AT1", get "n")] }

theorem own_takes_slice_lastElements :
    let step := codeIn {} lastElements.values "LIST" .unaryPostfix {}
    step = (.ok (some "xs"), step.2) ∧
      (lastElements.own {} .listsGetSublist {}).1 =
        .ok (.value "xs.sublist(xs.length - n)" .unaryPostfix) ∧
      ∃ form : SliceForm, form.IsChosen .list "xs" .fromEnd .last ∧
        lastElements.EmitsSlice.{0} {} .list .fromEnd .last "xs" form
          (lastElements.own {} .listsGetSublist {}) := by
  have reachable : Ledger.Reachable ({} : Options).indent {} := ⟨[], .refl {}⟩
  have at1 : lastElements.HasIndex "AT1" := by
    rintro _ ⟨rfl⟩
    exact .enabled rfl rfl trivial nofun
  have at2 : lastElements.HasIndex "AT2" := fun _ plugged => nomatch plugged
  have starts : Position.fromEnd.startsSlice = true := by decide
  have stops : Position.last.endsSlice = true := by decide
  have given : codeIn {} lastElements.values SequenceKind.list.sliceInput
      (SequenceKind.list.sliceLevel .fromEnd .last) {} = (.ok (some "xs"), _) :=
    Prod.ext (by decide +kernel) rfl
  exact ⟨given, by decide +kernel,
    (own_takes_slice starts stops rfl rfl at1 at2 reachable given).2.2⟩

end Block

end BlockScript
