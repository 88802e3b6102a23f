import BlockScript.Proofs.Rendering.Runs
import BlockScript.Proofs.Template.Complaints
import BlockScript.Proofs.Template.TidyBlocks

/-! # Chains of statements

A chain is rendered block by block, each from the ledger that the one before it left, and disabled
blocks are left out. A definition leaves nothing at its place, and there the chain ends: what
follows a definition is not rendered. -/

namespace BlockScript

namespace Block

/-- A block without what follows it. -/
def detached (b : Block) : Block := { b with next := none }

mutual

/-- A block and all that follow it, in order. -/
def chain : Block → List Block
  | ⟨node, values, statements, next⟩ => ⟨node, values, statements, next⟩ :: chainNext next

/-- What follows a block, in order. -/
def chainNext : Option Block → List Block
  | none => []
  | some child => chain child

end

theorem chain_eq (b : Block) : b.chain = b :: chainNext b.next := by
  cases b
  rfl

/-- The front of a chain up to its first definition. -/
def untilDefinition : List Block → List Block
  | [] => []
  | b :: rest => if b.node.Defines then [b] else b :: untilDefinition rest

/-- A chain is its front exactly if no definition stands before its last block. -/
theorem untilDefinition_eq_self_iff (blocks : List Block) :
    untilDefinition blocks = blocks ↔ ∀ b ∈ blocks.dropLast, ¬ b.node.Defines := by
  induction blocks with
  | nil => simp [untilDefinition]
  | cons first rest ih =>
      cases rest with
      | nil => simp [untilDefinition]
      | cons second more =>
          rw [untilDefinition, List.dropLast_cons_cons, List.forall_mem_cons, ← ih]
          by_cases defines : first.node.Defines
          · simp [defines]
          · simp [defines]

/-- Render blocks one after another, each without what follows it. A disabled block is left
out. -/
def renderEach (o : Options) : List Block → Pass String
  | [] => .pure ""
  | b :: rest =>
      if b.node.disabled then renderEach o rest
      else (renderChain o b.detached).andThen fun code =>
        (renderEach o rest).andThen fun more => .pure (code ++ more)

variable {o : Options} {b : Block}

/-- A disabled block leaves what follows it. -/
theorem renderChain_of_disabled (off : b.node.disabled = true) :
    renderChain o b = followingCode false (renderNext o b.next) := by
  unfold renderChain
  rw [render_eq]
  simp only [renderNode, off, if_true]
  cases renderNext o b.next with
  | none => rfl
  | some step =>
      funext ledger
      simp only [skipDisabled, followingCode, Pass.andThen]
      rcases step ledger with ⟨error | code, after⟩ <;> rfl

/-- The run of the script of a block of a kind. -/
def own (o : Options) (kind : Kind) (b : Block) : Pass Emitted :=
  (kind.script o b.node).run o
    ⟨remarkLines kind b.node b.values, renderValues o b.values, renderStatements o b.statements⟩

/-- An enabled block of a chain runs its script, and its comments and the code that follows go
around the code of the script. -/
theorem renderChain_of_enabled {kind : Kind} (on : b.node.disabled = false)
    (known : Kind.ofTypeName? b.node.kindName = some kind) :
    renderChain o b = (b.own o kind).andThen fun emitted =>
      (surround o kind b.node (remarkLines kind b.node b.values) (renderNext o b.next) .statement
        false emitted).andThen (chainCode b.node) := by
  unfold renderChain
  rw [render_eq]
  simp only [renderNode, on, Bool.false_eq_true, if_false, known]
  exact Pass.andThen_assoc ..

/-- A block of no known kind ends a chain. -/
theorem renderChain_of_unknown (on : b.node.disabled = false)
    (unknown : Kind.ofTypeName? b.node.kindName = none) :
    renderChain o b = .fail (.unknownKind b.node.id b.node.kindName) := by
  unfold renderChain
  rw [render_eq]
  simp only [renderNode, on, Bool.false_eq_true, if_false, unknown, Pass.fail_andThen]

/-- What follows a definition is not rendered. -/
theorem renderChain_of_defines (defines : b.node.Defines) :
    renderChain o b = renderChain o b.detached := by
  obtain ⟨on, kind, known, definition⟩ := defines
  rw [renderChain_of_enabled on known, renderChain_of_enabled (b := b.detached) on known]
  change _ = (b.own o kind).andThen _
  funext ledger
  rcases run : b.own o kind ledger with ⟨error | emitted, mid⟩
  · rw [Pass.andThen_of_error run, Pass.andThen_of_error run]
  · obtain rfl := (Kind.eq_nothing_iff run).mpr definition
    rw [Pass.andThen_of_ok run, Pass.andThen_of_ok run]
    rfl

/-- Any other block is followed by the rest of its chain. -/
theorem renderChain_of_not_defines (on : b.node.disabled = false) (ordinary : ¬ b.node.Defines) :
    renderChain o b = (renderChain o b.detached).andThen fun code =>
      (followingCode false (renderNext o b.next)).andThen fun more => .pure (code ++ more) := by
  cases known : Kind.ofTypeName? b.node.kindName with
  | none =>
      rw [renderChain_of_unknown on known, renderChain_of_unknown (b := b.detached) on known]
      rfl
  | some kind =>
      rw [renderChain_of_enabled on known, renderChain_of_enabled (b := b.detached) on known]
      change _ = ((b.own o kind).andThen _).andThen _
      rw [Pass.andThen_assoc]
      funext ledger
      rcases run : b.own o kind ledger with ⟨error | emitted, mid⟩
      · rw [Pass.andThen_of_error run, Pass.andThen_of_error run]
      · rw [Pass.andThen_of_ok run, Pass.andThen_of_ok run]
        cases emitted with
        | value code level => rfl
        | statement code =>
            simp only [surround, Pass.andThen_assoc, Pass.pure_andThen, chainCode]
            simp only [detached, renderNext, followingCode, Pass.pure_andThen, String.append_empty]
        | nothing =>
            have definition := (Kind.eq_nothing_iff run).mp rfl
            exact absurd ⟨on, kind, known, definition⟩ ordinary

/-- What follows a block is rendered as a chain of its own. -/
theorem followingCode_renderNext (next : Option Block)
    (rest : ∀ child ∈ next, renderChain o child = renderEach o (untilDefinition child.chain)) :
    followingCode false (renderNext o next) = renderEach o (untilDefinition (chainNext next)) := by
  cases next with
  | none => rfl
  | some child => exact rest child rfl

/-- A chain is rendered block by block, up to its first definition. All of it is rendered if no
definition stands before its last block. -/
theorem renderChain_eq_renderEach (o : Options) (first : Block) :
    renderChain o first = renderEach o (untilDefinition first.chain) ∧
      (untilDefinition first.chain = first.chain ↔
        ∀ b ∈ first.chain.dropLast, ¬ b.node.Defines) := by
  refine ⟨?_, untilDefinition_eq_self_iff first.chain⟩
  induction first with
  | mk node values statements next _ _ rest =>
      have following := followingCode_renderNext next rest
      rw [chain_eq, untilDefinition]
      by_cases off : node.disabled = true
      · have ordinary : ¬ node.Defines :=
          fun defines => absurd (off.symm.trans defines.1) (by decide)
        rw [renderChain_of_disabled off, if_neg ordinary, renderEach, if_pos off]
        exact following
      · have on : node.disabled = false := eq_false_of_ne_true off
        by_cases defines : node.Defines
        · rw [renderChain_of_defines defines, if_pos defines, renderEach, if_neg off]
          simp only [renderEach, Pass.pure_andThen, String.append_empty, Pass.andThen_pure]
        · rw [renderChain_of_not_defines on defines, if_neg defines, renderEach, if_neg off,
            following]

/-- A definition, and a block that prints after it. -/
def printAfterDefinition : Block :=
  { node := { id := "d", kindName := "procedures_defnoreturn", fields := [("NAME", "go_on")] }
    next := some { node := { id := "p", kindName := "text_print" } } }

/-- What follows a definition is lost. -/
theorem renderChain_skips :
    (renderChain {} printAfterDefinition {}).1 = .ok "" ∧
      (renderEach {} printAfterDefinition.chain {}).1 = .ok "print('');\n" := by
  decide +kernel

end Block

end BlockScript
