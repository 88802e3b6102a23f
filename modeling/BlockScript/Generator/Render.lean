import BlockScript.Generator.Ledger
import BlockScript.Generator.Remarks
import BlockScript.Template

/-! # Rendering blocks

A block is rendered by meeting the requests of its script: plugged-in blocks are rendered where
the script asks for them, and everything else comes from the ledger. Around the code of a
statement go its templates, its comments and the code of the next statement. -/

namespace BlockScript

/-- Where a block stands. -/
inductive Place where
  | top
  | value
  | statement
deriving DecidableEq, Repr

/-- The surroundings in which the script of a block runs: its comment lines, and for each input
that is filled a step that renders what fills it. -/
structure Surroundings where
  remarks : String
  /-- The block in a value input, and its rendering. -/
  values : Table (Node × Pass Emitted)
  /-- The rendering of the chain in a statement input. -/
  statements : Table (Pass String)

/-- The code of a value, fit for a place of the given level; empty code counts as none. -/
def valueCode (child : Node) (level : Precedence) : Emitted → Pass (Option String)
  | .value code inner => .pure (if code = "" then none else some (Precedence.wrap code inner level))
  | .nothing => .pure none
  | .statement _ => .fail (.expectedValue child.id child.kindName)

/-- The code of a statement and of all that follows it. -/
def chainCode (first : Node) : Emitted → Pass String
  | .statement code => .pure code
  | .nothing => .pure ""
  | .value _ _ => .fail (.expectedStatement first.id first.kindName)

namespace Surroundings

/-- The code in a value input. -/
def valueIn (s : Surroundings) (input : String) (level : Precedence) : Pass (Option String) :=
  match s.values.get? input with
  | none => .pure none
  | some (child, step) => step.andThen (valueCode child level)

/-- The code in a statement input, indented. -/
def bodyIn (s : Surroundings) (indent input : String) : Pass String :=
  match s.statements.get? input with
  | none => .pure ""
  | some step => step.andThen fun code => .pure (Text.prefixLines code indent)

end Surroundings

/-- Meet the requests of a script. -/
def Script.run {α : Type} (o : Options) (s : Surroundings) : Script α → Pass α
  | .done a => .pure a
  | .fail error => .fail error
  | .value input level next => (s.valueIn input level).andThen fun code => (next code).run o s
  | .body input next => (s.bodyIn o.indent input).andThen fun code => (next code).run o s
  | .hasBody input next => (next (s.statements.get? input).isSome).run o s
  | .remarks next => (next s.remarks).run o s
  | .name category raw next => fun ledger =>
      let given := ledger.getName category raw
      (next given.1).run o s given.2
  | .temporary base next => fun ledger =>
      let given := ledger.distinctName base
      (next given.1).run o s given.2
  | .helper h next => fun ledger =>
      let given := ledger.provide h o.indent
      (next given.1).run o s given.2
  | .require m next => fun ledger => next.run o s (ledger.addImport m)
  | .define key code next => fun ledger => next.run o s (ledger.setDefinition key code)
  | .clearWidgets next => fun ledger => next.run o s ledger.clearWidgets
  | .addWidget widget code next => fun ledger => next.run o s (ledger.putWidget widget code)
  | .widgets next => fun ledger => (next ledger.widgets.values).run o s ledger

/-- The statement templates around the code of a block. -/
def withTemplates (o : Options) (kind : Kind) (n : Node) (code : String) : String :=
  if kind.suppressesTemplates then code
  else (o.prefixFor n.id).getD "" ++ code ++ (o.suffixFor n.id).getD ""

/-- The comment lines that go in front of a block's code: none in front of a value. -/
def remarksAt (place : Place) (remarks : String) : String :=
  match place with
  | .value => ""
  | _ => remarks

/-- The code of what follows a block, if that is wanted. -/
def followingCode (alone : Bool) (next : Option (Pass String)) : Pass String :=
  match alone, next with
  | false, some step => step
  | _, _ => .pure ""

/-- Put comments and following code around the code of a block. Only a statement has following
code. -/
def surround (o : Options) (kind : Kind) (n : Node) (remarks : String) (next : Option (Pass String))
    (place : Place) (alone : Bool) : Emitted → Pass Emitted
  | .value code level => .pure (.value (remarksAt place remarks ++ code) level)
  | .statement code =>
      (followingCode alone next).andThen fun following =>
        .pure (.statement (remarksAt place remarks ++ withTemplates o kind n code ++ following))
  | .nothing => .pure .nothing

/-- A disabled block leaves what follows it, unless it stands alone. -/
def skipDisabled (alone : Bool) (next : Option (Pass String)) : Pass Emitted :=
  match alone, next with
  | false, some step => step.andThen fun code => .pure (.statement code)
  | _, _ => .pure .nothing

/-- Render a block, given how its inputs and what follows it are rendered. -/
def renderNode (o : Options) (n : Node) (values : List (String × Block))
    (valueSteps : Table (Node × Pass Emitted)) (statementSteps : Table (Pass String))
    (next : Option (Pass String)) (place : Place) (alone : Bool) : Pass Emitted :=
  if n.disabled then skipDisabled alone next
  else
    match Kind.ofTypeName? n.kindName with
    | none => .fail (.unknownKind n.id n.kindName)
    | some kind =>
        let remarks := remarkLines kind n values
        ((kind.script o n).run o ⟨remarks, valueSteps, statementSteps⟩).andThen
          (surround o kind n remarks next place alone)

namespace Block

mutual

/-- Render a block at a place; a block that stands alone is rendered without what follows. -/
def render (o : Options) : Block → Place → Bool → Pass Emitted
  | ⟨node, values, statements, next⟩, place, alone =>
      renderNode o node values (renderValues o values) (renderStatements o statements)
        (renderNext o next) place alone

/-- The renderings of the blocks in value inputs. -/
def renderValues (o : Options) : List (String × Block) → List (String × (Node × Pass Emitted))
  | [] => []
  | (input, child) :: rest => (input, (child.node, render o child .value true)) :: renderValues o rest

/-- The renderings of the chains in statement inputs. -/
def renderStatements (o : Options) : List (String × Block) → List (String × Pass String)
  | [] => []
  | (input, child) :: rest =>
      (input, (render o child .statement false).andThen (chainCode child.node)) ::
        renderStatements o rest

/-- The rendering of the next block. -/
def renderNext (o : Options) : Option Block → Option (Pass String)
  | none => none
  | some child => some ((render o child .statement false).andThen (chainCode child.node))

end

/-- Render a block and all that follows it. -/
def renderChain (o : Options) (first : Block) : Pass String :=
  (first.render o .statement false).andThen (chainCode first.node)

end Block

end BlockScript
