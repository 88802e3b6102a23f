import Mathlib.Data.List.Nodup
import Mathlib.Data.Prod.Lex
import Mathlib.Data.String.Basic
import BlockScript.Workspace

/-! # Reading order

Blocks at the top are read by their keys: the height first, then the place in the row, then the
id. Blocks of one key stay in the order of the document, and where no two blocks have one key the
order of the document does not count at all. -/

namespace BlockScript

/-- What a block at the top is read by, compared from left to right. -/
abbrev SortKey := Int ×ₗ Int ×ₗ String

/-- The height of a block, its place in the row, and its id. -/
def Node.sortKey (n : Node) : SortKey :=
  toLex (n.y.getD farCoordinate, toLex (n.x.getD farCoordinate, n.id))

def Block.sortKey (b : Block) : SortKey := b.node.sortKey

/-- A block comes no later than another exactly if its key is no greater. -/
theorem Node.comesFirst_iff (a b : Node) : a.comesFirst b = true ↔ a.sortKey ≤ b.sortKey := by
  simp only [comesFirst, sortKey, Prod.Lex.toLex_le_toLex]
  split
  · next higher => simp only [decide_eq_true_eq, higher, false_and, or_false]
  · next level =>
      have level := not_ne_iff.mp level
      split
      · next further =>
          simp only [decide_eq_true_eq, level, further, lt_irrefl, false_and, or_false, true_and,
            false_or]
      · next same =>
          have same := not_ne_iff.mp same
          rw [Bool.not_eq_true', decide_eq_false_iff_not, not_lt]
          simp only [level, same, lt_irrefl, true_and, false_or]

namespace Workspace

/-- Are blocks in the order of their keys? -/
abbrev Ordered (blocks : List Block) : Prop := blocks.Pairwise fun a b => a.sortKey ≤ b.sortKey

/-- Is a block read by this key? -/
def hasKey (key : SortKey) (b : Block) : Bool := b.sortKey = key

theorem ordered_insertBlock {blocks : List Block} (b : Block) (h : Ordered blocks) :
    Ordered (insertBlock b blocks) := by
  induction blocks with
  | nil => exact List.pairwise_singleton _ b
  | cons other rest ih =>
      have others := List.pairwise_cons.mp h
      simp only [insertBlock, Node.comesFirst_iff]
      split
      · next first =>
          refine List.pairwise_cons.mpr ⟨fun c hc => ?_, h⟩
          rcases List.mem_cons.mp hc with rfl | hc
          · exact first
          · exact first.trans (others.1 c hc)
      · next later =>
          refine List.pairwise_cons.mpr ⟨fun c hc => ?_, ih others.2⟩
          rcases List.mem_cons.mp ((insertBlock_perm b rest).mem_iff.mp hc) with rfl | hc
          · exact (not_le.mp later).le
          · exact others.1 c hc

theorem ordered_inOrder (blocks : List Block) : Ordered (inOrder blocks) := by
  induction blocks with
  | nil => exact .nil
  | cons b rest ih => exact ordered_insertBlock b ih

/-- A block is put in front of the others of its key. -/
theorem filter_insertBlock (key : SortKey) (b : Block) (blocks : List Block) :
    (insertBlock b blocks).filter (hasKey key) = (b :: blocks).filter (hasKey key) := by
  induction blocks with
  | nil => rfl
  | cons other rest ih =>
      simp only [insertBlock, Node.comesFirst_iff]
      split
      · rfl
      · next later =>
          -- The other block has a lesser key, so at most one of the two has the key in question.
          have apart : b.sortKey ≠ other.sortKey := fun same => later same.le
          rw [List.filter_cons, ih, List.filter_cons, List.filter_cons, List.filter_cons]
          by_cases ho : hasKey key other = true
          · have hb : hasKey key b = false := by
              simp only [hasKey, decide_eq_true_eq, decide_eq_false_iff_not] at ho ⊢
              exact ho ▸ apart
            simp [ho, hb]
          · simp [ho]

/-- Blocks of one key stay in the order in which they are given. -/
theorem filter_inOrder (key : SortKey) (blocks : List Block) :
    (inOrder blocks).filter (hasKey key) = blocks.filter (hasKey key) := by
  induction blocks with
  | nil => rfl
  | cons b rest ih =>
      calc (inOrder (b :: rest)).filter (hasKey key)
          = (b :: inOrder rest).filter (hasKey key) := filter_insertBlock key b (inOrder rest)
        _ = (b :: rest).filter (hasKey key) := by rw [List.filter_cons, ih, ← List.filter_cons]

/-- Where all keys differ, the reading order depends on what blocks there are and on nothing
else. -/
theorem inOrder_eq_of_perm {blocks blocks' : List Block} (perm : blocks.Perm blocks')
    (distinct : (blocks.map Block.sortKey).Nodup) : inOrder blocks = inOrder blocks' := by
  have sorted := inOrder_perm blocks
  have sorted' := inOrder_perm blocks'
  refine List.Perm.eq_of_pairwise (fun a b ha hb hab hba => ?_) (ordered_inOrder blocks)
    (ordered_inOrder blocks') (sorted.trans (perm.trans sorted'.symm))
  exact List.inj_on_of_nodup_map distinct (sorted.mem_iff.mp ha)
    (perm.mem_iff.mpr (sorted'.mem_iff.mp hb)) (le_antisymm hab hba)

end Workspace

end BlockScript
