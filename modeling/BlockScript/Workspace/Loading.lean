import BlockScript.Workspace
import BlockScript.Workspace.LoadError

/-! # Loading

Steps that build blocks from a saved form. They may fail, and they count the blocks that were
saved without an id, each of which gets one by its number. -/

namespace BlockScript

/-- A loading step; the state is the number of ids made so far. -/
abbrev Loading (α : Type) := StateT Nat (Except LoadError) α

namespace Loading
variable {α : Type}

def fail (error : LoadError) : Loading α := throw error

/-- The id for the block without one that comes `n`-th. -/
def numberedId (n : Nat) : String := "__block" ++ toString n

/-- The id that was saved, unless it is empty; else the next one by number. -/
def takeId (saved : Option String) : Loading String := fun made =>
  match saved.filter (· ≠ "") with
  | some id => .ok (id, made)
  | none => .ok (numberedId (made + 1), made + 1)

/-- The value of something required. -/
def require (value : Option α) (error : LoadError) : Loading α :=
  match value with
  | some a => pure a
  | none => fail error

/-- The result of a step, with ids counted from one. -/
def result (step : Loading α) : Except LoadError α := (step.run 0).map (·.1)

end Loading

/-- A block whose type is missing. -/
def LoadError.missingType : LoadError := .missingAttribute "block" "type"

namespace Block

def putField (b : Block) (name value : String) : Block :=
  { b with node := { b.node with fields := b.node.fields.put name value } }

def putValue (b : Block) (name : String) (child : Block) : Block :=
  { b with values := Table.put b.values name child }

def putStatement (b : Block) (name : String) (first : Block) : Block :=
  { b with statements := Table.put b.statements name first }

def withMutation (b : Block) (m : Mutation) : Block :=
  { b with node := { b.node with mutation := m } }

def withComment (b : Block) (text : String) : Block :=
  { b with node := { b.node with comment := some text } }

end Block

end BlockScript
