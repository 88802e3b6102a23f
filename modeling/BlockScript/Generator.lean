import BlockScript.Generator.Render
import BlockScript.Program
import BlockScript.Workspace

/-! # Generating a program

A pass over a workspace first reserves the names of all variables and procedures, and then
renders the blocks at the top in reading order. A generator can be used again: every pass first
resets the ledger that the pass before it left. -/

namespace BlockScript

namespace Block

/-- What a block at the top leaves in the body, if anything. -/
def lineOf : Emitted → Option String
  | .value code _ => if code = "" then none else some (code ++ ";\n")
  | .statement code => if code = "" then none else some code
  | .nothing => none

/-- Render a block at the top. -/
def renderTop (o : Options) (b : Block) : Pass (Option String) :=
  (b.render o .top false).andThen fun emitted => .pure (lineOf emitted)

end Block

/-- The raw names of the variables of some blocks, each once, in the order of their first use. -/
def variableNames (nodes : List Node) : List String :=
  nodes.foldl
    (fun names n =>
      match Kind.ofTypeName? n.kindName, n.field "VAR" with
      | some kind, some raw =>
          if kind.usesVariableField && !names.contains raw then names ++ [raw] else names
      | _, _ => names)
    []

/-- The raw names of the procedures that some blocks define. -/
def definedNames (nodes : List Node) : List String :=
  nodes.filterMap fun n =>
    match Kind.ofTypeName? n.kindName with
    | some kind => if kind.isProcedureDefinition then n.field "NAME" else none
    | none => none

namespace Ledger

/-- Give out the names for raw ones, in order. -/
def getNames (ledger : Ledger) (category : NameCategory) : List String → List String × Ledger
  | [] => ([], ledger)
  | raw :: rest =>
      let (name, ledger) := ledger.getName category raw
      let (names, ledger) := ledger.getNames category rest
      (name :: names, ledger)

/-- The key of the declaration of all variables. -/
def variablesKey : String := "variables"

/-- Reserve the names of variables and procedures, and declare the variables. -/
def declareNames (ledger : Ledger) (nodes : List Node) : Ledger :=
  let (declared, ledger) := ledger.getNames .variableName (variableNames nodes)
  let (_, ledger) := ledger.getNames .procedureName (definedNames nodes)
  if declared.isEmpty then ledger
  else ledger.addDefinition variablesKey ("var " ++ ", ".intercalate declared ++ ";")

end Ledger

/-- What the blocks at the top leave behind: lines of the body, and errors that lines stand
for. -/
structure Harvest where
  lines : List String := []
  errors : List GenerateError := []
deriving DecidableEq, Repr

namespace Harvest

/-- Put the line of a block in front. -/
def addLine (line : Option String) (h : Harvest) : Harvest :=
  { h with lines := line.toList ++ h.lines }

/-- Put the comment for an error in front. -/
def addError (error : GenerateError) (h : Harvest) : Harvest :=
  { lines := ("// error: " ++ error.message ++ "\n") :: h.lines
    errors := error :: h.errors }

end Harvest

/-- Render the blocks at the top, one after another. Where errors become comments, a block that
fails leaves the ledger as it was before. -/
def renderAll (o : Options) : List Block → Pass Harvest
  | [] => .pure {}
  | b :: rest => fun ledger =>
      match b.renderTop o ledger with
      | (.ok line, after) => (renderAll o rest).andThen (fun h => .pure (h.addLine line)) after
      | (.error error, after) =>
          match o.errorPolicy with
          | .abort => (.error error, after)
          | .comment => (renderAll o rest).andThen (fun h => .pure (h.addError error)) ledger

/-- A generator keeps its options, and the ledger of its last pass. -/
structure Generator where
  options : Options
  ledger : Ledger := {}
deriving DecidableEq, Repr

namespace Generator

/-- Generate a program from a workspace. -/
def generate (g : Generator) (w : Workspace) : Except GenerateError Program × Generator :=
  let start := g.ledger.reset.declareNames w.walk
  let (result, ledger) := renderAll g.options w.orderedBlocks start
  let program := result.map fun h : Harvest =>
    { imports := ledger.definitions.imports
      definitions := ledger.definitions.definitions
      body := "\n".intercalate h.lines
      errors := h.errors : Program }
  (program, { g with ledger })

end Generator

/-- The program of a workspace, by a generator of its own. -/
def generate (o : Options) (w : Workspace) : Except GenerateError Program :=
  (Generator.generate { options := o } w).1

end BlockScript
