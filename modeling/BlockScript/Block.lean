import BlockScript.Table
import BlockScript.Number.Decimal

/-! # Blocks

A block is one step of a visual program. It shows data of its own, and other blocks are plugged
into it: values into some inputs, chains of statements into others, and the next statement below
it. -/

namespace BlockScript

/-- The part of a block's state that its shape depends on. -/
structure Mutation where
  attributes : Table String := []
  args : List String := []
deriving DecidableEq, Repr

namespace Mutation

/-- A count; anything that is not one counts as zero. -/
def count (m : Mutation) (name : String) : Nat :=
  ((m.attributes.get? name).bind fun raw => Number.readCount (Text.trim raw.toList)).getD 0

def flag (m : Mutation) (name : String) : Bool :=
  m.attributes.get? name == some "1" || m.attributes.get? name == some "true"

def items (m : Mutation) : Nat := m.count "items"

def elseIfCount (m : Mutation) : Nat := m.count "elseif"

def hasElse (m : Mutation) : Bool := m.flag "else"

def hasReturnValue (m : Mutation) : Bool := m.flag "value"

end Mutation

/-- What a block shows itself, apart from the blocks plugged into it. -/
structure Node where
  id : String
  kindName : String
  x : Option Int := none
  y : Option Int := none
  fields : Table String := []
  mutation : Mutation := {}
  comment : Option String := none
  disabled : Bool := false
deriving DecidableEq, Repr

def Node.field (n : Node) (name : String) : Option String := n.fields.get? name

/-- The comment, unless it is empty. -/
def Node.remark (n : Node) : Option String := n.comment.filter (· ≠ "")

/-- A block with all that hangs from it. -/
structure Block where
  node : Node
  values : List (String × Block) := []
  statements : List (String × Block) := []
  next : Option Block := none

namespace Block

def value? (b : Block) (name : String) : Option Block := Table.get? b.values name

def statement? (b : Block) (name : String) : Option Block := Table.get? b.statements name

mutual

/-- A block and all below it: first itself, then the values, the statements and the next one. -/
def walk : Block → List Node
  | ⟨node, values, statements, next⟩ =>
      node :: (walkInputs values ++ (walkInputs statements ++ walkNext next))

def walkInputs : List (String × Block) → List Node
  | [] => []
  | (_, child) :: rest => walk child ++ walkInputs rest

def walkNext : Option Block → List Node
  | none => []
  | some child => walk child

end

theorem walkInputs_eq (inputs : List (String × Block)) :
    walkInputs inputs = inputs.flatMap fun input => input.2.walk := by
  induction inputs with
  | nil => rfl
  | cons input rest ih => simp [walkInputs, ih]

theorem walk_eq (b : Block) :
    b.walk = b.node :: (walkInputs b.values ++ (walkInputs b.statements ++ walkNext b.next)) := by
  cases b; rfl

theorem node_mem_walk (b : Block) : b.node ∈ b.walk := by
  rw [walk_eq]; exact List.mem_cons_self

end Block

end BlockScript
