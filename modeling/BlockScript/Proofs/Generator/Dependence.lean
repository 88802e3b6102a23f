import BlockScript.Generator
import BlockScript.Proofs.Workspace.ReadingOrder

/-! # What a program depends on

A pass reads the blocks at the top in reading order only, and starts from a ledger that it has
reset. So neither the order in which a document lists the blocks nor the passes that a generator
has been used for before make a difference. -/

namespace BlockScript

open Workspace (Ordered hasKey)

namespace Generator

/-- A pass depends on the options of its generator, not on what earlier passes left. -/
theorem generate_of_options {g g' : Generator} (same : g.options = g'.options) (w : Workspace) :
    g.generate w = g'.generate w := by
  cases g
  cases g'
  simp only at same
  subst same
  simp only [generate, Ledger.reset_eq]

/-- A pass reads the blocks at the top in reading order only. -/
theorem generate_of_orderedBlocks (g : Generator) {w w' : Workspace}
    (same : w.orderedBlocks = w'.orderedBlocks) : g.generate w = g.generate w' := by
  simp only [generate, Workspace.walk, same]

/-- A generator after a pass over each of some workspaces, whether it gave a program or not. -/
def after (g : Generator) (history : List Workspace) : Generator :=
  history.foldl (fun used w => (used.generate w).2) g

@[simp] theorem after_cons (g : Generator) (w : Workspace) (history : List Workspace) :
    g.after (w :: history) = (g.generate w).2.after history := rfl

@[simp] theorem options_generate (g : Generator) (w : Workspace) :
    (g.generate w).2.options = g.options := rfl

/-- No pass changes the options. -/
@[simp] theorem options_after (g : Generator) (history : List Workspace) :
    (g.after history).options = g.options := by
  induction history generalizing g with
  | nil => rfl
  | cons w rest ih => rw [after_cons, ih, options_generate]

end Generator

/-- Workspaces with the same blocks at the top, no two of which have one key, give the same
program or the same error, and leave the same ledger. In every workspace the blocks are read in
the order of their keys, and those of one key in the order of the document. -/
theorem generate_of_perm (g : Generator) (w : Workspace) :
    (∀ w' : Workspace, w.blocks.Perm w'.blocks → (w.blocks.map Block.sortKey).Nodup →
      g.generate w = g.generate w') ∧
    w.orderedBlocks.Perm w.blocks ∧ Ordered w.orderedBlocks ∧
    ∀ key, w.orderedBlocks.filter (hasKey key) = w.blocks.filter (hasKey key) := by
  refine ⟨fun w' perm distinct => ?_, Workspace.inOrder_perm _, Workspace.ordered_inOrder _,
    fun key => Workspace.filter_inOrder key _⟩
  exact g.generate_of_orderedBlocks (Workspace.inOrder_eq_of_perm perm distinct)

/-- A call of a procedure, a definition of it on a lower line, and a block of unknown kind without
a place, listed from the last to the first. -/
def callBelowDefinition : List Block :=
  [{ node := { id := "u", kindName := "mystery" } },
   { node := { id := "c", kindName := "procedures_callnoreturn", x := some 3, y := some 40,
               fields := [("NAME", "go")] } },
   { node := { id := "d", kindName := "procedures_defnoreturn", x := some 3, y := some (-7),
               fields := [("NAME", "go")] } }]

theorem generate_of_perm_reverse :
    let w : Workspace := { blocks := callBelowDefinition }
    let w' : Workspace := { blocks := callBelowDefinition.reverse }
    let g : Generator := { options := { errorPolicy := .comment } }
    w.blocks.Perm w'.blocks ∧ (w.blocks.map Block.sortKey).Nodup ∧
      g.generate w = g.generate w' := by
  intro w w' g
  have perm : w.blocks.Perm w'.blocks := (List.reverse_perm _).symm
  have distinct : (w.blocks.map Block.sortKey).Nodup := by decide
  exact ⟨perm, distinct, (generate_of_perm g w).1 w' perm distinct⟩

/-- A generator that has been used, in whatever way, works like a new one; and a workspace that it
meets a second time has the same source again. -/
theorem generate_reused (o : Options) (history : List Workspace) (w : Workspace) :
    let new : Generator := { options := o }
    let used := new.after history
    used.generate w = new.generate w ∧
      ((used.generate w).2.generate w).1.map Program.source =
        (used.generate w).1.map Program.source := by
  intro new used
  have options : used.options = new.options := Generator.options_after new history
  refine ⟨Generator.generate_of_options options w, ?_⟩
  rw [Generator.generate_of_options (Generator.options_generate used w) w]

end BlockScript
