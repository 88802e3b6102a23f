import BlockScript.Number.Decimal
import BlockScript.Workspace.Format

/-! # Arguments of the command line

Two positions and some options, in any order. An option takes its value after an equals sign or
as the next argument, unless that starts with a hyphen; two hyphens alone make everything after
them positional. -/

namespace BlockScript.CommandLine

structure Arguments where
  input : String
  output : Option String := none
  format : Option WorkspaceFormat := none
  config : Option String := none
  statementPrefix : Option String := none
  statementSuffix : Option String := none
  loopTrap : Option String := none
  zeroBased : Bool := false
  indent : Option Nat := none
  keepGoing : Bool := false
  definitionsJson : Option String := none
deriving DecidableEq, Repr

inductive ArgumentError where
  | missingRequired
  | unknown
  /-- A value that is missing, or none of those that are possible. -/
  | invalidValue
  /-- A value that is no number. -/
  | notANumber
  | repeated
  /-- A value for an option that takes none. -/
  | unneededValue
  | helpWanted
deriving DecidableEq, Repr

/-- What an argument can give. -/
inductive Parameter where
  | input | output
  | format | config | statementPrefix | statementSuffix | loopTrap | indent | definitionsJson
  | zeroBased | keepGoing | help
deriving DecidableEq, Repr

namespace Parameter

/-- The options by their names. -/
def ofName? : String → Option Parameter
  | "format" => some format
  | "config" => some config
  | "statement-prefix" => some statementPrefix
  | "statement-suffix" => some statementSuffix
  | "loop-trap" => some loopTrap
  | "zero-based" => some zeroBased
  | "indent" => some indent
  | "keep-going" => some keepGoing
  | "definitions-json" => some definitionsJson
  | "help" => some help
  | _ => none

def takesValue : Parameter → Bool
  | zeroBased | keepGoing | help => false
  | _ => true

end Parameter

/-- The arguments read so far, where the input may still be missing. -/
structure Reading where
  given : List Parameter := []
  input : Option String := none
  rest : Arguments := { input := "" }
  /-- A parameter that is not taken in yet, with its value if that is there. -/
  pending : Option (Parameter × Option String) := none

def formatNamed? : String → Option WorkspaceFormat
  | "xml" => some .xml
  | "json" => some .json
  | _ => none

/-- A path, which is not empty. -/
def pathOf (value : String) : Except ArgumentError String :=
  if value = "" then .error .invalidValue else .ok value

/-- The value of a parameter that takes one, made part of the arguments. -/
def Reading.set (r : Reading) (parameter : Parameter) (value : String) :
    Except ArgumentError Reading :=
  let a := r.rest
  match parameter with
  | .input => (pathOf value).map fun p => { r with input := some p }
  | .output => (pathOf value).map fun p => { r with rest := { a with output := some p } }
  | .config => (pathOf value).map fun p => { r with rest := { a with config := some p } }
  | .definitionsJson =>
      (pathOf value).map fun p => { r with rest := { a with definitionsJson := some p } }
  | .statementPrefix => .ok { r with rest := { a with statementPrefix := some value } }
  | .statementSuffix => .ok { r with rest := { a with statementSuffix := some value } }
  | .loopTrap => .ok { r with rest := { a with loopTrap := some value } }
  | .format =>
      match formatNamed? value with
      | some f => .ok { r with rest := { a with format := some f } }
      | none => .error .invalidValue
  | .indent =>
      match Number.readCount value.toList with
      | some n => .ok { r with rest := { a with indent := some n } }
      | none => .error .notANumber
  | .zeroBased => .ok { r with rest := { a with zeroBased := true } }
  | .keepGoing => .ok { r with rest := { a with keepGoing := true } }
  | .help => .error .helpWanted

/-- Take in a parameter, which may come once. -/
def Reading.take (r : Reading) (parameter : Parameter) (value : String) :
    Except ArgumentError Reading :=
  if parameter ∈ r.given then .error .repeated
  else ({ r with given := parameter :: r.given }).set parameter value

/-- Take in the parameter that is waiting. -/
def Reading.settle (r : Reading) : Except ArgumentError Reading :=
  match r.pending with
  | none => .ok r
  | some (_, none) => .error .invalidValue
  | some (parameter, some value) => ({ r with pending := none }).take parameter value

/-- An option without an attached value. -/
def Reading.option (r : Reading) (parameter : Parameter) : Except ArgumentError Reading := do
  let r ← r.settle
  if parameter.takesValue then pure { r with pending := some (parameter, none) }
  else r.take parameter ""

/-- An option by its name, with its attached value if there is one. -/
def Reading.long (r : Reading) (name : String) (value : Option String) :
    Except ArgumentError Reading :=
  match Parameter.ofName? name, value with
  | none, _ => .error .unknown
  | some parameter, none => r.option parameter
  | some parameter, some value =>
      if parameter.takesValue then do
        let r ← r.settle
        r.take parameter value
      else .error .unneededValue

/-- An argument for the next position. -/
def Reading.position (r : Reading) (value : String) : Except ArgumentError Reading :=
  let filled := r.pending.map Prod.fst == some .output || r.given.contains .output
  let started := r.pending.map Prod.fst == some .input || r.given.contains .input
  if filled then .error .unknown
  else do
    let r ← r.settle
    pure { r with pending := some (if started then .output else .input, some value) }

/-- The name of an option and the value attached to it. -/
def splitOption (cs : List Char) : String × Option String :=
  let name := String.ofList (cs.takeWhile (· ≠ '='))
  match cs.dropWhile (· ≠ '=') with
  | _ :: value => (name, some (String.ofList value))
  | [] => (name, none)

/-- An argument that is neither an option nor a mark. -/
def Reading.plain (r : Reading) (value : String) : Except ArgumentError Reading :=
  match r.pending with
  | some (parameter, none) => .ok { r with pending := some (parameter, some value) }
  | _ => r.position value

def Reading.all (r : Reading) : List String → Except ArgumentError Reading
  | [] => r.settle
  | arg :: rest =>
      match arg.toList with
      | ['-', '-'] => do (← rest.foldlM Reading.position r).settle
      | '-' :: '-' :: option => do
          let (name, value) := splitOption option
          (← r.long name value).all rest
      | '-' :: 'h' :: _ => do (← r.option .help).all rest
      | '-' :: _ :: _ => .error .unknown
      | _ => do (← r.plain arg).all rest

/-- The arguments that follow the program's name. -/
def Arguments.read (args : List String) : Except ArgumentError Arguments := do
  let r ← ({} : Reading).all args
  match r.input with
  | some input => pure { r.rest with input }
  | none => .error .missingRequired

end BlockScript.CommandLine
