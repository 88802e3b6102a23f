import BlockScript.CommandLine.Progress
import BlockScript.CommandLine.RunError
import BlockScript.Generator
import BlockScript.Json.Printer
import BlockScript.Options.OfJson

/-! # A run of the program

A run reads a workspace, generates its program, and writes or prints the script. Everything that
can fail without a write comes before the first write. -/

namespace BlockScript.CommandLine

namespace Arguments

/-- The text of a template argument, in which a backslash and an `n` stand for a newline. -/
def templateText (raw : String) : String := Text.replaceAll raw "\\n" "\n"

/-- Options, where those that the arguments name are set to what they say. -/
def override (a : Arguments) (o : Options) : Options where
  statementPrefix := (a.statementPrefix.map templateText).or o.statementPrefix
  statementSuffix := (a.statementSuffix.map templateText).or o.statementSuffix
  loopTrap := (a.loopTrap.map templateText).or o.loopTrap
  oneBasedIndex := if a.zeroBased then false else o.oneBasedIndex
  indent := (a.indent.map fun width => String.ofList (List.replicate width ' ')).getD o.indent
  errorPolicy := if a.keepGoing then .comment else o.errorPolicy

/-- The format of the input: the one asked for, or what its path tells, or what its text tells. -/
def formatOf (a : Arguments) (path text : String) : WorkspaceFormat :=
  (a.format.or (WorkspaceFormat.ofPath? path)).getD (WorkspaceFormat.sniff text)

end Arguments

/-- Imports or definitions as JSON. -/
def entriesJson (entries : Table String) : Json.Value :=
  .array (entries.map fun e => .object [("key", .string e.1), ("code", .string e.2)])

/-- The parts of a program as JSON. -/
def partsJson (p : Program) : Json.Value :=
  .object [("imports", entriesJson p.imports), ("definitions", entriesJson p.definitions),
    ("body", .string p.body)]

/-- The line that tells of an error which a comment in the script stands for. -/
def warning (error : GenerateError) : String := "warning: " ++ error.message ++ "\n"

section Run
variable {m : Type → Type} [Monad m]

/-- A step that may fail, with the error that its failure amounts to. -/
def attempt {ε α : Type} (step : m (Except ε α)) (error : ε → RunError) : ExceptT RunError m α :=
  ExceptT.mk do return (← step).mapError error

/-- A result that may be a failure, with the error that this amounts to. -/
def given {ε α : Type} (result : Except ε α) (error : ε → RunError) : ExceptT RunError m α :=
  ExceptT.mk (pure (result.mapError error))

/-- Announce a stage. -/
def announce (h : Host m) (a : Arguments) (stage : Stage) : ExceptT RunError m Unit :=
  liftM (h.note (Progress.line a stage))

/-- The full path of the input. -/
def resolveInput (h : Host m) (a : Arguments) : ExceptT RunError m String := do
  if ← liftM (h.isFile a.input) then attempt (h.fullPath a.input) .unresolved
  else throw (.inputNotFound a.input)

/-- The options that a file holds. -/
def readConfig (h : Host m) (path : String) : ExceptT RunError m Options := do
  let text ← attempt (h.readText path) (.configUnreadable path)
  match Options.ofJson? text with
  | some o => pure o
  | none => throw (.configInvalid path)

/-- The options of a run. -/
def resolveOptions (h : Host m) (a : Arguments) : ExceptT RunError m Options := do
  match a.config with
  | none => pure (a.override {})
  | some path => return a.override (← readConfig h path)

/-- Write the parts of a program to the file that is asked for, if one is. -/
def writeDefinitions (h : Host m) (a : Arguments) (p : Program) : ExceptT RunError m Unit := do
  match a.definitionsJson with
  | none => pure ()
  | some path =>
      announce h a .writingDefinitions
      attempt (h.writeText path ((partsJson p).pretty 0)) (.unwritable path)

/-- Write the script to the output, or print it. -/
def deliver (h : Host m) (a : Arguments) (source : String) : ExceptT RunError m Unit := do
  announce h a a.lastStage
  match a.output with
  | some path => attempt (h.writeText path source) (.unwritable path)
  | none => liftM (h.print (source ++ "\n"))

/-- The program for the input. -/
def produce (h : Host m) (a : Arguments) : ExceptT RunError m Program := do
  announce h a .resolving
  let path ← resolveInput h a
  let options ← resolveOptions h a
  announce h a .loading
  let text ← attempt (h.readText path) (.unreadable path)
  let workspace ← given (Workspace.load (a.formatOf path text) text) (.unloadable path)
  announce h a .generating
  given (generate options workspace) .generation

/-- Run the program. -/
def run (h : Host m) (a : Arguments) : ExceptT RunError m Unit := do
  let program ← produce h a
  program.errors.forM fun error => liftM (h.note (warning error))
  writeDefinitions h a program
  deliver h a program.source

end Run

end BlockScript.CommandLine
