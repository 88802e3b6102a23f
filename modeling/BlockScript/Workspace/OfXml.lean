import BlockScript.Workspace.Loading
import BlockScript.Xml.Reader

/-! # Workspaces saved as XML

A block is an element; elements inside it give its fields, its mutation and comment, and hold
the blocks plugged into it. A shadow counts only where no block is. -/

namespace BlockScript.Workspace.OfXml
open Xml

def isBlockName (name : String) : Bool := name == "block" || name == "shadow"

/-- Insert an entry into a list that is sorted by key. -/
def insertSorted (entry : String × String) : List (String × String) → List (String × String)
  | [] => [entry]
  | e :: rest => if entry.1 < e.1 then entry :: e :: rest else e :: insertSorted entry rest

/-- A mutation: the attributes in order of their names, and the names of the arguments. -/
def mutationOf (e : Element) : Mutation where
  attributes := e.attributes.foldr insertSorted []
  args := (e.children.filter fun child => child.name = "arg").filterMap fun child =>
    child.attribute? "name"

/-- An element, seen both as a block and as what holds a block. -/
structure View where
  element : Element
  /-- The block that the element stands for. -/
  block : Loading Block
  /-- The block inside the element, if there is one. -/
  held : Option (Loading Block)

/-- The block among child elements, or else the shadow. -/
def heldBlock (children : List View) : Option (Loading Block) :=
  let named := fun name => children.find? fun v : View => v.element.name = name
  ((named "block").or (named "shadow")).map View.block

/-- The name that a child element has to have. -/
def requiredName (e : Element) : Loading String :=
  Loading.require (e.attribute? "name") (.missingAttribute e.name "name")

/-- Take in what a child element says about its block. -/
def addChild (b : Block) (child : View) : Loading Block := do
  let e := child.element
  match e.name with
  | "mutation" => pure (b.withMutation (mutationOf e))
  | "field" =>
      let name ← requiredName e
      pure (b.putField name e.text)
  | "comment" => pure (b.withComment e.text)
  | "value" =>
      let name ← requiredName e
      match child.held with
      | none => pure b
      | some step => return b.putValue name (← step)
  | "statement" =>
      let name ← requiredName e
      match child.held with
      | none => pure b
      | some step => return b.putStatement name (← step)
  | "next" =>
      match child.held with
      | none => pure b
      | some step => return { b with next := some (← step) }
  | _ => pure b

/-- What the attributes of a block say about it. -/
def nodeOf (e : Element) : Loading Node := do
  let kindName ← Loading.require (e.attribute? "type") .missingType
  let id ← Loading.takeId (e.attribute? "id")
  pure {
    id
    kindName
    x := (e.attribute? "x").bind Number.readCoordinate
    y := (e.attribute? "y").bind Number.readCoordinate
    disabled := e.attribute? "disabled" == some "true" || e.attribute? "enabled" == some "false" }

/-- The block of an element whose children are seen in the same way. -/
def blockOf (e : Element) (children : List View) : Loading Block := do
  let node ← nodeOf e
  children.foldlM addChild { node }

mutual

def view : Element → View
  | ⟨name, attributes, text, children⟩ =>
      let e : Element := ⟨name, attributes, text, children⟩
      let views := viewAll children
      { element := e, block := blockOf e views, held := heldBlock views }

def viewAll : List Element → List View
  | [] => []
  | e :: rest => view e :: viewAll rest

end

/-- The variables that an element lists. -/
def variablesOf (e : Element) : List Variable :=
  (e.children.filter fun child => child.name = "variable").map fun child =>
    { id := (child.attribute? "id").getD "", name := child.text }

/-- The workspace of an element. -/
def workspaceOf (root : Element) : Except LoadError Workspace := do
  let tops := (viewAll root.children).filter fun v => isBlockName v.element.name
  let blocks ← Loading.result (tops.mapM View.block)
  let lists := root.children.filter fun child => child.name = "variables"
  pure { blocks, declared := lists.flatMap variablesOf }

/-- The workspace that a text holds. -/
def load (text : String) : Except LoadError Workspace :=
  match Xml.read text with
  | none => .error .xml
  | some root => workspaceOf root

end BlockScript.Workspace.OfXml
