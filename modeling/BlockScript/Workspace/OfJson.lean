import BlockScript.Json.Reader
import BlockScript.Kind
import BlockScript.Workspace.OfXml

/-! # Workspaces saved as JSON

A block is an object. Its inputs do not say whether they hold a value or statements; the kind of
the block does. Variables are named by their ids. -/

namespace BlockScript.Workspace.OfJson
open Json

/-- A value, seen as a block, as what connects to a block, and as a list of such connections. -/
structure View where
  value : Value
  /-- The block that the value stands for. -/
  block : Loading Block
  /-- The block that the value connects to, if there is one. -/
  connected : Option (Loading Block)
  /-- The members of the value as connections, in order of their names. -/
  inputs : List (String × Option (Loading Block))

/-- The last of some members of a name. -/
def member? (members : List (String × View)) (name : String) : Option View :=
  Table.get? members.reverse name

/-- The block that members connect to, or else the shadow. -/
def connectedBlock (members : List (String × View)) : Option (Loading Block) :=
  ((member? members "block").or (member? members "shadow")).map View.block

/-- Members in order of their names, each name once with the last value written for it. -/
def sortedInputs (members : List (String × View)) : List (String × Option (Loading Block)) :=
  let insert := fun sorted (m : String × View) => insertInput m.1 m.2.connected sorted
  members.foldl insert []
where
  insertInput (name : String) (step : Option (Loading Block)) :
      List (String × Option (Loading Block)) → List (String × Option (Loading Block))
    | [] => [(name, step)]
    | (n, s) :: rest =>
        if name < n then (name, step) :: (n, s) :: rest
        else if n < name then (n, s) :: insertInput name step rest
        else (n, step) :: rest

/-- The text of a field. A reference to a variable gives the variable's name. -/
def fieldText (declared : List Variable) (v : Value) : String :=
  match v with
  | .object _ =>
      match (v.get? "name").bind Value.asString?, (v.get? "id").bind Value.asString? with
      | some name, _ => name
      | none, some id => ((declared.find? fun x => x.id = id).map Variable.name).getD id
      | none, none => ""
  | v => v.scalarText?.getD ""

/-- The attribute of a mutation that a name stands for. -/
def attributeName : String → String
  | "itemCount" => "items"
  | "elseIfCount" => "elseif"
  | "hasElse" => "else"
  | "hasReturnValue" => "value"
  | other => other

/-- The names of parameters, each alone or in an object. -/
def parameterNames (v : Value) : List String :=
  (v.asArray?.getD []).filterMap fun
    | .string name => some name
    | param => (param.get? "name").bind Value.asString?

/-- Take in one member of a mutation. -/
def addState (m : Mutation) (name : String) (v : Value) : Mutation :=
  if name = "params" then { m with args := m.args ++ parameterNames v }
  else
    match v.scalarText? with
    | none => m
    | some text => { m with attributes := m.attributes.put (attributeName name) text }

/-- A mutation: an object, or the text of an XML element. -/
def mutationOf (v : Value) : Loading Mutation :=
  match v with
  | .string text =>
      match Xml.read text with
      | none => Loading.fail .xml
      | some e => pure (OfXml.mutationOf e)
  | .object members =>
      pure ((Value.sortedMembers members).foldl (fun m s => addState m s.1 s.2) {})
  | _ => Loading.fail (.malformed "extraState must be an object or a mutation string")

/-- The comment of a block, which hangs from an icon. -/
def commentOf (v : Value) : Option String := do
  let icons ← v.get? "icons"
  let comment ← icons.get? "comment"
  let text ← comment.get? "text"
  text.asString?

def coordinate (v : Value) (name : String) : Option Int :=
  ((v.get? name).bind Value.asNumber?).map Number.Binary64.roundInt64

/-- What the members of a block say about it, apart from its mutation. -/
def nodeOf (declared : List Variable) (v : Value) : Loading Node := do
  let kindName ← Loading.require ((v.get? "type").bind Value.asString?) .missingType
  let id ← Loading.takeId ((v.get? "id").bind Value.asString?)
  let fields := ((v.get? "fields").bind Value.asObject?).getD []
  pure {
    id
    kindName
    x := coordinate v "x"
    y := coordinate v "y"
    disabled := (v.get? "enabled").bind Value.asBool? == some false ||
      (v.get? "disabled").bind Value.asBool? == some true
    comment := commentOf v
    fields := Table.ofWrites (fields.map fun f => (f.1, fieldText declared f.2)) }

/-- Plug a block into an input: as statements if the kind says so, else as a value. -/
def addInput (b : Block) (input : String × Option (Loading Block)) : Loading Block :=
  match input.2 with
  | none => pure b
  | some step => do
      let child ← step
      match Kind.ofTypeName? b.node.kindName with
      | some kind =>
          if kind.isStatementInput input.1 then pure (b.putStatement input.1 child)
          else pure (b.putValue input.1 child)
      | none => pure (b.putValue input.1 child)

/-- The block of an object, whose members are seen in the same way. -/
def blockOf (declared : List Variable) (v : Value) (members : List (String × View)) :
    Loading Block := do
  let node ← nodeOf declared v
  let mutation ← match v.get? "extraState" with
    | none => pure {}
    | some state => mutationOf state
  let inputs := ((member? members "inputs").map View.inputs).getD []
  let b ← inputs.foldlM addInput { node := { node with mutation } }
  match (member? members "next").bind View.connected with
  | none => pure b
  | some step => return { b with next := some (← step) }

/-- A value that holds no blocks. -/
def plainView (v : Value) : View :=
  { value := v
    block := Loading.fail (.malformed "block must be an object")
    connected := none
    inputs := [] }

mutual

def view (declared : List Variable) : Value → View
  | .object members =>
      let views := viewAll declared members
      { value := .object members
        block := blockOf declared (.object members) views
        connected := connectedBlock views
        inputs := sortedInputs views }
  | v => plainView v

def viewAll (declared : List Variable) : List (String × Value) → List (String × View)
  | [] => []
  | (name, v) :: rest => (name, view declared v) :: viewAll declared rest

end

def variableOf (v : Value) : Variable :=
  { id := ((v.get? "id").bind Value.scalarText?).getD ""
    name := ((v.get? "name").bind Value.scalarText?).getD "" }

/-- The blocks at the top: a list, or a list inside a section. -/
def topBlocks (root : Value) : Except LoadError (List Value) :=
  match root.get? "blocks" with
  | none => .ok []
  | some (.array blocks) => .ok blocks
  | some (.object members) =>
      .ok (((Value.object members).get? "blocks").bind Value.asArray? |>.getD [])
  | some _ => .error (.malformed "'blocks' must be an object or an array")

/-- The workspace of a value. -/
def workspaceOf (root : Value) : Except LoadError Workspace :=
  match root with
  | .object _ => do
      let declared := (((root.get? "variables").bind Value.asArray?).getD []).map variableOf
      let tops ← topBlocks root
      let blocks ← Loading.result (tops.mapM fun v => (view declared v).block)
      pure { blocks, declared }
  | _ => .error (.malformed "workspace JSON must be an object")

/-- The workspace that a text holds. -/
def load (text : String) : Except LoadError Workspace :=
  match Json.read text with
  | none => .error .json
  | some root => workspaceOf root

end BlockScript.Workspace.OfJson
