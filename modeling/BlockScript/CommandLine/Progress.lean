import BlockScript.CommandLine.Arguments

/-! # Progress

A run goes through stages, which its arguments fix. Each stage announces itself by a line that
tells its number and how far the run has come. -/

namespace BlockScript.CommandLine

inductive Stage where
  | resolving
  | loading
  | generating
  | writingDefinitions
  | writingScript
  | printingScript
deriving DecidableEq, Repr

namespace Stage

def label : Stage → String
  | resolving => "Resolving input path"
  | loading => "Loading workspace"
  | generating => "Generating code"
  | writingDefinitions => "Writing definitions"
  | writingScript => "Writing script"
  | printingScript => "Printing script"

end Stage

namespace Arguments

/-- The stage that delivers the script. -/
def lastStage (a : Arguments) : Stage :=
  if a.output.isSome then .writingScript else .printingScript

/-- The stages of a run, in order. -/
def stages (a : Arguments) : List Stage :=
  [.resolving, .loading, .generating] ++
    (if a.definitionsJson.isSome then [.writingDefinitions] else []) ++ [a.lastStage]

/-- The number of a stage, counted from one. -/
def stageNumber (a : Arguments) (stage : Stage) : Nat := a.stages.idxOf stage + 1

end Arguments

namespace Progress

/-- The number of cells in a bar. -/
def barWidth : Nat := 14

/-- How many cells are filled: the nearest number, the larger of two. -/
def filledCells (step total : Nat) : Nat := (step * barWidth + total / 2) / total

/-- A bar that shows how much is done. -/
def bar (step total : Nat) : String :=
  let filled := filledCells step total
  "[" ++ String.ofList (List.replicate filled '=' ++ List.replicate (barWidth - filled) '-') ++ "]"

/-- The line that announces a stage. -/
def line (a : Arguments) (stage : Stage) : String :=
  let step := a.stageNumber stage
  let total := a.stages.length
  "[Generate] " ++ stage.label ++ "... (" ++ toString step ++ "/" ++ toString total ++ ") " ++
    bar step total ++ "\n"

end Progress

end BlockScript.CommandLine
