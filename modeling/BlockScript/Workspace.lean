import BlockScript.Block

/-! # Workspaces

A workspace holds named variables and the blocks that stand alone on it. The blocks are read
from top to bottom and then from left to right. -/

namespace BlockScript

structure Variable where
  id : String
  name : String
deriving DecidableEq, Repr

structure Workspace where
  blocks : List Block := []
  declared : List Variable := []

/-- The coordinate of a block that has none: below and right of all others. -/
def farCoordinate : Int := Number.Binary64.maxInt64

/-- Does a block come no later than another? The higher one is first, then the one further
left, then the one with the lesser id. -/
def Node.comesFirst (a b : Node) : Bool :=
  let (ya, yb) := (a.y.getD farCoordinate, b.y.getD farCoordinate)
  let (xa, xb) := (a.x.getD farCoordinate, b.x.getD farCoordinate)
  if ya ≠ yb then ya < yb
  else if xa ≠ xb then xa < xb
  else !(b.id < a.id)

namespace Workspace

/-- Put a block in front of the first one that it comes no later than. -/
def insertBlock (block : Block) : List Block → List Block
  | [] => [block]
  | other :: rest =>
      if block.node.comesFirst other.node then block :: other :: rest
      else other :: insertBlock block rest

/-- Blocks in reading order; those at the same place with the same id keep their order. -/
def inOrder (blocks : List Block) : List Block := blocks.foldr insertBlock []

def orderedBlocks (w : Workspace) : List Block := inOrder w.blocks

/-- Every block of the workspace, in reading order. -/
def walk (w : Workspace) : List Node := w.orderedBlocks.flatMap Block.walk

theorem insertBlock_perm (block : Block) (blocks : List Block) :
    (insertBlock block blocks).Perm (block :: blocks) := by
  induction blocks with
  | nil => exact .refl _
  | cons other rest ih =>
    simp only [insertBlock]
    split
    · exact .refl _
    · exact (ih.cons other).trans (.swap block other rest)

theorem inOrder_perm (blocks : List Block) : (inOrder blocks).Perm blocks := by
  induction blocks with
  | nil => exact .refl _
  | cons block rest ih => exact (insertBlock_perm block _).trans (ih.cons block)

end Workspace

end BlockScript
