import BlockScript.Template.Sequence

/-! # Elements

Reading, removing, replacing and inserting single elements of a list, and reading single letters
of a text. Code that would evaluate a compound list twice binds it to a temporary first. -/

namespace BlockScript.Template
open Script

/-- What becomes of the element that is read. -/
inductive ReadMode where
  | keep
  | take
  | drop
deriving DecidableEq, Repr

/-- What becomes of the element at the place that is written to. -/
inductive WriteMode where
  | replace
  | shift
deriving DecidableEq, Repr

def readMode (n : Node) : Script ReadMode :=
  match n.field "MODE" with
  | none => done .keep
  | some "GET" => done .keep
  | some "GET_REMOVE" => done .take
  | some "REMOVE" => done .drop
  | some other => fail (n.unknownOption "MODE" (some other))

def writeMode (n : Node) : Script WriteMode :=
  match n.field "MODE" with
  | none => done .replace
  | some "SET" => done .replace
  | some "INSERT" => done .shift
  | some other => fail (n.unknownOption "MODE" (some other))

/-- An expression, or a statement where its value is not wanted. -/
def ReadMode.emit (mode : ReadMode) (kept taken : String) : Script Emitted :=
  match mode with
  | keep => postfixValue kept
  | take => postfixValue taken
  | drop => done (.statement (taken ++ ";\n"))

/-- The statement that binds a list to a temporary. -/
def bindingOf (temporary list : String) : String := "List " ++ temporary ++ " = " ++ list ++ ";"

/-- The statement that picks an index of a list. -/
def pickIndex (index list : String) : String :=
  "int " ++ index ++ " = new Math.Random().nextInt(" ++ list ++ ".length);\n"

/-- The index `at1` elements before the end. -/
def beforeEnd (list at1 : String) : String := list ++ ".length - " ++ at1

def removeAt (list index : String) : String := list ++ ".removeAt(" ++ index ++ ")"

def elementAt (list index : String) : String := list ++ "[" ++ index ++ "]"

/-- Drop a random element. -/
def dropRandom (binding list : String) : Script Emitted := do
  let index ← temporaryName "tmp_x"
  done (.statement (binding ++ pickIndex index list ++ removeAt list index ++ ";\n"))

/-- The element from a place counted from the end of a list that is bound first. -/
def readBound (mode : ReadMode) (binding list at1 : String) : Script Emitted :=
  let index := beforeEnd list at1
  match mode with
  | .drop => done (.statement (binding ++ "\n" ++ removeAt list index ++ ";\n"))
  | .keep => done (.value ("\x7b " ++ binding ++ " " ++ elementAt list index ++ " \x7d") .atomic)
  | .take => done (.value ("\x7b " ++ binding ++ " " ++ removeAt list index ++ " \x7d") .atomic)

/-- A read that would evaluate the list twice, with the list bound first. -/
def readHoisted (o : Options) (mode : ReadMode) (position : Position) (list : String) :
    Script Emitted :=
  if position = .random then do
    requireModule .math
    let bound ← temporaryName "tmp_list"
    dropRandom (bindingOf bound list ++ "\n") bound
  else do
    let at1 ← adjustedIndex o "AT" 1 subtrahend
    let bound ← temporaryName "tmp_list"
    readBound mode (bindingOf bound list) bound at1

/-- A read that names the list as it is. -/
def readDirect (o : Options) (mode : ReadMode) (list : String) : Position → Script Emitted
  | .first => mode.emit (list ++ ".first") (removeAt list "0")
  | .last => mode.emit (list ++ ".last") (list ++ ".removeLast()")
  | .fromStart => do
      let index ← adjustedIndex o "AT" 0 .anything
      mode.emit (elementAt list index) (removeAt list index)
  | .fromEnd => do
      let at1 ← adjustedIndex o "AT" 1 subtrahend
      mode.emit (elementAt list (beforeEnd list at1)) (removeAt list (beforeEnd list at1))
  | .random => do
      requireModule .math
      match mode with
      | .drop => dropRandom "" list
      | .keep =>
          let name ← helperName .randomItem
          postfixValue (name ++ "(" ++ list ++ ")")
      | .take =>
          let name ← helperName .removeRandomItem
          postfixValue (name ++ "(" ++ list ++ ")")

/-- Does a direct read name the list twice? -/
def readsTwice (mode : ReadMode) (position : Position) : Bool :=
  position = .fromEnd || (position = .random && mode = .drop)

def listsGetIndex (o : Options) (n : Node) : Script Emitted := do
  let mode ← readMode n
  let position ← positionOr n "WHERE" (some .fromStart)
  let level := if position = .random ∨ position = .fromEnd then .anything
    else Precedence.unaryPostfix
  let list ← valueOr "VALUE" level "[]"
  if readsTwice mode position && !Text.isBareWord list then readHoisted o mode position list
  else readDirect o mode list position

/-- A list to be named twice: as it is if it is one word, else a temporary and its binding. -/
def bindUnlessBare (list : String) : Script (String × String) :=
  if Text.isBareWord list then done ("", list)
  else do
    let bound ← temporaryName "tmp_list"
    done (bindingOf bound list ++ "\n", bound)

/-- The statement that writes at an index. -/
def WriteMode.write (mode : WriteMode) (list index value : String) : String :=
  match mode with
  | replace => elementAt list index ++ " = " ++ value ++ ";\n"
  | shift => list ++ ".insert(" ++ index ++ ", " ++ value ++ ");\n"

def writeElement (o : Options) (mode : WriteMode) (list value : String) :
    Position → Script String
  | .first => done (mode.write list "0" value)
  | .last =>
      match mode with
      | .replace => do
          let (binding, list) ← bindUnlessBare list
          done (binding ++ WriteMode.replace.write list (beforeEnd list "1") value)
      | .shift => done (list ++ ".add(" ++ value ++ ");\n")
  | .fromStart => do
      let index ← adjustedIndex o "AT" 0 .anything
      done (mode.write list index value)
  | .fromEnd => do
      let at1 ← adjustedIndex o "AT" 1 subtrahend
      let (binding, list) ← bindUnlessBare list
      done (binding ++ mode.write list (beforeEnd list at1) value)
  | .random => do
      requireModule .math
      let (binding, list) ← bindUnlessBare list
      let index ← temporaryName "tmp_x"
      done (binding ++ pickIndex index list ++ mode.write list index value)

def listsSetIndex (o : Options) (n : Node) : Script Emitted := do
  let mode ← writeMode n
  let position ← positionOr n "WHERE" (some .fromStart)
  let list ← valueOr "LIST" .unaryPostfix "[]"
  let value ← valueOr "TO" .assignment "null"
  let code ← writeElement o mode list value position
  done (.statement code)

/-- A letter counted from the end, by a helper. -/
def letterFromEnd (text at1 : String) : Script Emitted := do
  let name ← helperName .letterFromEnd
  postfixValue (name ++ "(" ++ text ++ ", " ++ at1 ++ ")")

def textCharAt (o : Options) (n : Node) : Script Emitted := do
  let position ← positionOr n "WHERE" (some .fromStart)
  let level := if position = .first ∨ position = .fromStart then .unaryPostfix
    else Precedence.anything
  let text ← valueOr "VALUE" level "''"
  match position with
  | .first => postfixValue (elementAt text "0")
  | .fromStart =>
      let index ← adjustedIndex o "AT" 0 .anything
      postfixValue (elementAt text index)
  | .last => letterFromEnd text "1"
  | .fromEnd =>
      let at1 ← adjustedIndex o "AT" 1 .anything
      letterFromEnd text at1
  | .random =>
      requireModule .math
      let name ← helperName .randomLetter
      postfixValue (name ++ "(" ++ text ++ ")")

end BlockScript.Template
