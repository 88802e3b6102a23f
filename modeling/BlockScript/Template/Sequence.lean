import BlockScript.Template.Position

/-! # Texts and lists alike

Length, emptiness, search and slices work in the same way on texts and on lists, up to the code
of the empty one and the names of the methods. -/

namespace BlockScript.Template
open Script

/-- What is a sequence. -/
inductive SequenceKind where
  | text
  | list
deriving DecidableEq, Repr

namespace SequenceKind

/-- The code of the empty sequence. -/
def empty : SequenceKind → String
  | text => "''"
  | list => "[]"

/-- The input that holds the sequence to be sliced. -/
def sliceInput : SequenceKind → String
  | text => "STRING"
  | list => "LIST"

def sliceMethod : SequenceKind → String
  | text => "substring"
  | list => "sublist"

def sliceHelper : SequenceKind → Helper
  | text => .substring
  | list => .sublist

/-- May code be repeated without evaluating anything twice? -/
def isRepeatable : SequenceKind → String → Bool
  | text => Text.isQuotedWord
  | list => Text.isBareWord

end SequenceKind

def sequenceLength (kind : SequenceKind) : Script Emitted := do
  let sequence ← valueOr "VALUE" .unaryPostfix kind.empty
  postfixValue (sequence ++ ".length")

def sequenceIsEmpty (kind : SequenceKind) : Script Emitted := do
  let sequence ← valueOr "VALUE" .unaryPostfix kind.empty
  postfixValue (sequence ++ ".isEmpty")

/-- The method that searches from one end. -/
def searchMethod? : String → Option String
  | "FIRST" => some "indexOf"
  | "LAST" => some "lastIndexOf"
  | _ => none

def sequenceIndexOf (kind : SequenceKind) (o : Options) (n : Node) : Script Emitted := do
  let fromSide ← n.requiredField "END"
  match searchMethod? fromSide with
  | none => fail (n.unknownOption "END" (some fromSide))
  | some method =>
      let item ← valueOr "FIND" .anything "''"
      let sequence ← valueOr "VALUE" .unaryPostfix kind.empty
      let code := sequence ++ "." ++ method ++ "(" ++ item ++ ")"
      if o.oneBasedIndex then done (.value (code ++ " + 1") .additive)
      else postfixValue code

/-- Can a slice start there? -/
def Position.startsSlice : Position → Bool
  | fromStart | fromEnd | first => true
  | _ => false

/-- Can a slice end there? -/
def Position.endsSlice : Position → Bool
  | fromStart | fromEnd | last => true
  | _ => false

/-- The position in a field, if it meets a condition. -/
def positionWith (n : Node) (field : String) (position : Position) (holds : Bool) :
    Script Unit :=
  if holds then done () else fail (n.unknownOption field (some position.name))

/-- Both ends of a slice. -/
def sliceEnds (n : Node) : Script (Position × Position) := do
  let start ← positionOr n "WHERE1" none
  let stop ← positionOr n "WHERE2" none
  positionWith n "WHERE1" start start.startsSlice
  positionWith n "WHERE2" stop stop.endsSlice
  done (start, stop)

/-- The code of the start of a slice. -/
def sliceStart (o : Options) (sequence : String) : Position → Script String
  | .fromStart => adjustedIndex o "AT1" 0 .anything
  | .fromEnd => do
      let at1 ← adjustedIndex o "AT1" 1 subtrahend
      done (sequence ++ ".length - " ++ at1)
  | _ => done "0"

/-- A slice by the method of the sequence. -/
def directSlice (kind : SequenceKind) (o : Options) (sequence : String)
    (start stop : Position) : Script Emitted := do
  let at1 ← sliceStart o sequence start
  let call := sequence ++ "." ++ kind.sliceMethod ++ "(" ++ at1
  match stop with
  | .fromStart =>
      let at2 ← adjustedIndex o "AT2" 1 .anything
      postfixValue (call ++ ", " ++ at2 ++ ")")
  | .fromEnd =>
      let at2 ← adjustedIndex o "AT2" 0 subtrahend
      postfixValue (call ++ ", " ++ sequence ++ ".length - " ++ at2 ++ ")")
  | _ => postfixValue (call ++ ")")

/-- A slice by a helper, which evaluates the sequence once. -/
def helperSlice (kind : SequenceKind) (o : Options) (sequence : String)
    (start stop : Position) : Script Emitted := do
  let at1 ← adjustedIndex o "AT1" 0 .anything
  let at2 ← adjustedIndex o "AT2" 0 .anything
  let name ← helperName kind.sliceHelper
  postfixValue (name ++ "(" ++ sequence ++ ", '" ++ start.name ++ "', " ++ at1 ++ ", '" ++
    stop.name ++ "', " ++ at2 ++ ")")

/-- Does a slice name its sequence once only? -/
def needsNoLength (start stop : Position) : Bool := start ≠ .fromEnd && stop = .fromStart

def sliceOf (kind : SequenceKind) (o : Options) (sequence : String) (start stop : Position) :
    Script Emitted :=
  if kind.isRepeatable sequence || needsNoLength start stop then
    directSlice kind o sequence start stop
  else helperSlice kind o sequence start stop

def listsGetSublist (o : Options) (n : Node) : Script Emitted := do
  let (start, stop) ← sliceEnds n
  let list ← valueOr SequenceKind.list.sliceInput .unaryPostfix SequenceKind.list.empty
  sliceOf .list o list start stop

/-- The whole text is a slice of itself, and as code it may bind in any way. -/
def textGetSubstring (o : Options) (n : Node) : Script Emitted := do
  let (start, stop) ← sliceEnds n
  let level := if needsNoLength start stop then .unaryPostfix else Precedence.anything
  let text ← valueOr SequenceKind.text.sliceInput level SequenceKind.text.empty
  if start = .first ∧ stop = .last then done (.value text .anything)
  else sliceOf .text o text start stop

end BlockScript.Template
