import BlockScript.Proofs.Number.WholeNumber
import BlockScript.Proofs.Workspace.Tables

/-! # Saved blocks

A tree of blocks apart from any form in which it is saved, the two forms that it is saved in, and
the block that either form stands for. -/

namespace BlockScript.Saved

open Number Table
open Xml (Element)
open Json (Value)

/-- Data of a block. XML has it as text, and JSON tells the types apart. -/
inductive Scalar where
  | text (s : String)
  | whole (n : Int)
  | real (x : Binary64)
  | truth (b : Bool)

namespace Scalar

def written : Scalar → String
  | text s => s
  | whole n => toString n
  | real x => x.dataText
  | truth b => if b then "true" else "false"

def json : Scalar → Value
  | text s => .string s
  | whole n => .integer n
  | real x => .real x
  | truth b => .bool b

end Scalar

/-- What a field shows: data, or a variable. -/
inductive Field where
  | scalar (s : Scalar)
  | reference (v : Variable)

namespace Field

def written : Field → String
  | scalar s => s.written
  | reference v => v.name

/-- XML has the name of a variable and adds its id. -/
def xml (name : String) : Field → Element
  | scalar s => { name := "field", attributes := [("name", name)], text := s.written }
  | reference v =>
      { name := "field", attributes := [("name", name), ("id", v.id)], text := v.name }

/-- JSON has the id of a variable only. -/
def json : Field → Value
  | scalar s => s.json
  | reference v => .object [("id", .string v.id)]

/-- Is the variable, if there is one, the first that is declared under its id? -/
def IsDeclared (declared : List Variable) : Field → Prop
  | scalar _ => True
  | reference v => (declared.find? fun x => x.id = v.id) = some v

end Field

/-- An attribute of a mutation. -/
inductive Attribute where
  | items
  | elseIfs
  | otherwise
  | returns
  | name
deriving DecidableEq

namespace Attribute

def xmlName : Attribute → String
  | items => "items"
  | elseIfs => "elseif"
  | otherwise => "else"
  | returns => "value"
  | name => "name"

def jsonName : Attribute → String
  | items => "itemCount"
  | elseIfs => "elseIfCount"
  | otherwise => "hasElse"
  | returns => "hasReturnValue"
  | name => "name"

def all : List Attribute := [items, elseIfs, otherwise, returns, name]

/-- The attributes in the order of their names. -/
def ordered : List Attribute := [otherwise, elseIfs, items, name, returns]

theorem all_perm_ordered : all.Perm ordered := by decide

theorem pairwise_ordered : ordered.Pairwise fun a b => a.xmlName < b.xmlName := by decide

end Attribute

/-- What the shape of a block depends on: attributes, and parameters with their variables. -/
structure Shape where
  given : Attribute → Option Scalar
  parameters : List Variable := []

namespace Shape

/-- The attributes that are there, in some order. -/
def table (m : Shape) (order : List Attribute) : Table String :=
  present (order.map fun a => (a.xmlName, (m.given a).map Scalar.written))

theorem table_perm (m : Shape) {order order' : List Attribute} (h : order.Perm order') :
    (m.table order).Perm (m.table order') :=
  (h.map _).filterMap _

def xml (m : Shape) : Element where
  name := "mutation"
  attributes := m.table Attribute.all
  children := m.parameters.map fun p =>
    { name := "arg", attributes := [("name", p.name), ("varid", p.id)] }

def parameter (p : Variable) : Value :=
  .object [("name", .string p.name), ("id", .string p.id)]

/-- The attributes under the names that JSON has for them, and the parameters, if there are any. -/
def members (m : Shape) : Table (Option Value) :=
  (Attribute.all.map fun a => (a.jsonName, (m.given a).map Scalar.json)) ++
    [("params", if m.parameters.isEmpty then none else some (.array (m.parameters.map parameter)))]

def json (m : Shape) : Value := .object (present m.members)

def mutation (m : Shape) : Mutation where
  attributes := m.table Attribute.ordered
  args := m.parameters.map Variable.name

end Shape

/-- What a block shows itself. -/
structure Data where
  id : String
  kind : Kind
  x : Option Int := none
  y : Option Int := none
  fields : Table Field := []
  shape : Option Shape := none
  comment : Option String := none
  disabled : Bool := false

/-- How a block says that it is disabled. -/
inductive Spelling where
  | disabled
  | notEnabled
deriving DecidableEq

/-- The two members that may say so, where `yes` and `no` are the two truth values. -/
def Spelling.marks {α : Type} (s : Spelling) (off : Bool) (yes no : α) : Table (Option α) :=
  [("disabled", if off && s = .disabled then some yes else none),
    ("enabled", if off && s = .notEnabled then some no else none)]

/-- An object with some members, unless there are none. -/
def nonempty (members : Table Value) : Option Value :=
  if members.isEmpty then none else some (.object members)

namespace Data

def node (d : Data) : Node where
  id := d.id
  kindName := d.kind.typeName
  x := d.x
  y := d.y
  fields := d.fields.map fun f => (f.1, f.2.written)
  mutation := (d.shape.map Shape.mutation).getD {}
  comment := d.comment
  disabled := d.disabled

def xmlAttributes (s : Spelling) (d : Data) : Table String :=
  present ([("type", some d.kind.typeName), ("id", some d.id), ("x", d.x.map toString),
    ("y", d.y.map toString)] ++ s.marks d.disabled "true" "false")

def xmlComment (text : String) : Element := { name := "comment", text }

def xmlChildren (d : Data) : List Element :=
  (d.shape.map Shape.xml).toList ++ (d.fields.map fun f => f.2.xml f.1) ++
    (d.comment.map xmlComment).toList

def jsonComment (text : String) : Value :=
  .object [("comment", .object [("text", .string text)])]

/-- The members of a block, given those of its inputs and what comes next. -/
def jsonMembers (s : Spelling) (d : Data) (inputs : Table Value) (next : Option Value) :
    Table (Option Value) :=
  [("type", some (.string d.kind.typeName)), ("id", some (.string d.id)),
    ("x", d.x.map .integer), ("y", d.y.map .integer), ("icons", d.comment.map jsonComment),
    ("fields", nonempty (d.fields.map fun f => (f.1, f.2.json))),
    ("extraState", d.shape.map Shape.json), ("inputs", nonempty inputs), ("next", next)] ++
    s.marks d.disabled (.bool true) (.bool false)

/-- Ids are not empty, coordinates are exact, fields have names of their own, and the variables in
them are declared. -/
structure WellFormed (declared : List Variable) (d : Data) : Prop where
  id : d.id ≠ ""
  x : ∀ n ∈ d.x, n.natAbs ≤ Binary64.exactBound
  y : ∀ n ∈ d.y, n.natAbs ≤ Binary64.exactBound
  fields : (keys d.fields).Nodup
  references : ∀ f ∈ d.fields, f.2.IsDeclared declared

end Data

/-- What is plugged in: a block, with or without a shadow behind it, or only a shadow. -/
inductive Plug (α : Type) where
  | block (child : α) (behind : Option α)
  | shadow (child : α)

/-- What counts of it: the shadow behind a block does not. -/
def Plug.child {α : Type} : Plug α → α
  | block child _ => child
  | shadow child => child

/-- An input, for statements or for a value, and what it holds. -/
structure Input (α : Type) where
  name : String
  statement : Bool
  content : α

/-- A block with all that hangs from it. -/
inductive Tree where
  | mk (data : Data) (inputs : List (Input (Plug Tree))) (next : Option (Plug Tree))

/-! The two forms. -/

mutual

def Tree.xml (s : Spelling) : Tree → String → Element
  | ⟨data, inputs, next⟩, tag =>
      { name := tag
        attributes := data.xmlAttributes s
        children := data.xmlChildren ++ (xmlInputs s inputs ++ xmlNext s next) }

def xmlInputs (s : Spelling) : List (Input (Plug Tree)) → List Element
  | [] => []
  | ⟨name, statement, plug⟩ :: rest =>
      { name := if statement then "statement" else "value"
        attributes := [("name", name)]
        children := xmlPlug s plug } :: xmlInputs s rest

def xmlNext (s : Spelling) : Option (Plug Tree) → List Element
  | none => []
  | some plug => [{ name := "next", children := xmlPlug s plug }]

def xmlPlug (s : Spelling) : Plug Tree → List Element
  | .block child behind => xmlShadow s behind ++ [child.xml s "block"]
  | .shadow child => [child.xml s "shadow"]

def xmlShadow (s : Spelling) : Option Tree → List Element
  | none => []
  | some child => [child.xml s "shadow"]

end

mutual

def Tree.json (s : Spelling) : Tree → Value
  | ⟨data, inputs, next⟩ =>
      .object (present (data.jsonMembers s (jsonInputs s inputs) (jsonNext s next)))

def jsonInputs (s : Spelling) : List (Input (Plug Tree)) → Table Value
  | [] => []
  | ⟨name, _, plug⟩ :: rest => (name, jsonPlug s plug) :: jsonInputs s rest

def jsonNext (s : Spelling) : Option (Plug Tree) → Option Value
  | none => none
  | some plug => some (jsonPlug s plug)

def jsonPlug (s : Spelling) : Plug Tree → Value
  | .block child behind =>
      .object (present [("shadow", jsonShadow s behind), ("block", some (child.json s))])
  | .shadow child => .object [("shadow", child.json s)]

def jsonShadow (s : Spelling) : Option Tree → Option Value
  | none => none
  | some child => some (child.json s)

end

/-! The block that both stand for. -/

/-- What is in the inputs of one sort. -/
def part {α : Type} (statement : Bool) (inputs : List (Input α)) : Table α :=
  inputs.filterMap fun i => if i.statement = statement then some (i.name, i.content) else none

mutual

def Tree.block : Tree → Block
  | ⟨data, inputs, next⟩ =>
      { node := data.node
        values := part false (blockInputs inputs)
        statements := part true (blockInputs inputs)
        next := blockNext next }

def blockInputs : List (Input (Plug Tree)) → List (Input Block)
  | [] => []
  | ⟨name, statement, plug⟩ :: rest => ⟨name, statement, blockPlug plug⟩ :: blockInputs rest

def blockNext : Option (Plug Tree) → Option Block
  | none => none
  | some plug => some (blockPlug plug)

def blockPlug : Plug Tree → Block
  | .block child _ => child.block
  | .shadow child => child.block

end

/-- A tree of well-formed data, in which the inputs of a block have names of their own and the kind
of the block tells which of them hold statements. Shadows behind blocks may be anything. -/
inductive Tree.WellFormed (declared : List Variable) : Tree → Prop
  | mk {data : Data} {inputs : List (Input (Plug Tree))} {next : Option (Plug Tree)}
      (data_wellFormed : data.WellFormed declared)
      (names : (inputs.map Input.name).Nodup)
      (sorts : ∀ i ∈ inputs, i.statement = data.kind.isStatementInput i.name)
      (children : ∀ i ∈ inputs, WellFormed declared i.content.child)
      (following : ∀ plug ∈ next, WellFormed declared plug.child) :
      WellFormed declared ⟨data, inputs, next⟩

end BlockScript.Saved
