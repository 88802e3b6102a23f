import BlockScript.Proofs.Generator.Recovery
import BlockScript.Proofs.Template.Complaints
import BlockScript.Proofs.Template.TidyBlocks

/-! # Errors name their blocks

The block that an error names is one that is rendered: it is not disabled, and it hangs from blocks
that are not disabled, except that a chain goes on below a disabled one. Where a statement stands
for a value, or a value for a statement, the error names the block that is plugged in and not the
one that it is plugged into. -/

namespace BlockScript

namespace Block

/-- Is a part of a block reached when the block is rendered? What is plugged into a disabled block
is not, but what follows it is. -/
inductive IsLive (part : Block) : Block → Prop
  | self : IsLive part part
  | value {b child : Block} {input : String} (on : b.node.disabled = false)
      (h : b.value? input = some child) (below : IsLive part child) : IsLive part b
  | statement {b child : Block} {input : String} (on : b.node.disabled = false)
      (h : b.statement? input = some child) (below : IsLive part child) : IsLive part b
  | next {b child : Block} (h : b.next = some child) (below : IsLive part child) : IsLive part b

theorem IsLive.isPart {part b : Block} (h : part.IsLive b) : part.IsPart b := by
  induction h with
  | self => exact .self
  | value _ h _ ih => exact .value (Table.mem_of_get? h) ih
  | statement _ h _ ih => exact .statement (Table.mem_of_get? h) ih
  | next h _ ih => exact .next h ih

/-- Does a chain of statements start with the child, below a block or in one of its inputs? -/
def Chains (b child : Block) : Prop :=
  b.next = some child ∨ b.node.disabled = false ∧ ∃ input, b.statement? input = some child

theorem Chains.isLive {b child part : Block} (h : b.Chains child) (below : part.IsLive child) :
    part.IsLive b := by
  rcases h with h | ⟨on, input, h⟩
  · exact .next h below
  · exact .statement on h below

/-- What is wrong with the block that an error names, in a block at the top. -/
def Explains (o : Options) (culprit top : Block) : GenerateError → Prop
  | .unknownKind _ _ => Kind.ofTypeName? culprit.node.kindName = none
  | .unknownOption _ _ field value => value = (culprit.node.field field).getD "<missing>"
  | .invalidNumber _ value => ∃ field, culprit.node.field field = some value
  | .expectedValue _ _ =>
      (∃ (parent : Block) (input : String), parent.IsLive top ∧ parent.node.disabled = false ∧
        parent.value? input = some culprit) ∧
      ∃ ledger code after, culprit.render o .value true ledger = (.ok (.statement code), after)
  | .expectedStatement _ _ =>
      (∃ parent : Block, parent.IsLive top ∧ parent.Chains culprit) ∧
      ∃ ledger code level after,
        culprit.render o .statement false ledger = (.ok (.value code level), after)

/-- An error names a block that is rendered in a block at the top, for something that is wrong
with it. -/
structure IsCulprit (o : Options) (top : Block) (e : GenerateError) (culprit : Block) : Prop where
  live : culprit.IsLive top
  enabled : culprit.node.disabled = false
  blockId : e.blockId = culprit.node.id
  kindName : ∀ kindName ∈ e.kindName?, kindName = culprit.node.kindName
  explains : culprit.Explains o top e

/-- Some block is the culprit of an error. -/
def HasCulprit (o : Options) (top : Block) (e : GenerateError) : Prop :=
  ∃ culprit, top.IsCulprit o e culprit

variable {o : Options} {b child : Block} {e : GenerateError}

/-- The culprit of an error in a child is its culprit in the block as well. -/
theorem HasCulprit.above (h : child.HasCulprit o e)
    (up : ∀ {part : Block}, part.IsLive child → part.IsLive b) : b.HasCulprit o e := by
  obtain ⟨culprit, live, enabled, blockId, kindName, explains⟩ := h
  refine ⟨culprit, up live, enabled, blockId, kindName, ?_⟩
  cases e with
  | unknownKind | unknownOption | invalidNumber => exact explains
  | expectedValue id name =>
      obtain ⟨⟨parent, input, below, plugged⟩, leaves⟩ := explains
      exact ⟨⟨parent, input, up below, plugged⟩, leaves⟩
  | expectedStatement id name =>
      obtain ⟨⟨parent, below, chains⟩, leaves⟩ := explains
      exact ⟨⟨parent, up below, chains⟩, leaves⟩

/-- A block complains about itself. -/
theorem HasCulprit.complaint (enabled : b.node.disabled = false) (h : b.node.Complaint e) :
    b.HasCulprit o e := by
  refine ⟨b, .self, enabled, h.blockId_eq, h.kindName_eq, ?_⟩
  cases h with
  | option field => rfl
  | number h => exact ⟨_, h⟩

/-- The code of a child in a value input: if it is a statement, the child is to blame. -/
theorem ends_valueIn (enabled : b.node.disabled = false) {remarks input : String}
    {statements : Table (Pass String)} {level : Precedence}
    (ih : ∀ child, b.value? input = some child →
      (child.render o .value true).Ends (child.HasCulprit o) fun _ => True) :
    (Surroundings.valueIn ⟨remarks, renderValues o b.values, statements⟩ input level).Ends
      (b.HasCulprit o) fun _ => True := by
  simp only [Surroundings.valueIn, get?_renderValues]
  cases plugged : Table.get? b.values input with
  | none => exact .pure trivial
  | some child =>
      have up {part : Block} : part.IsLive child → part.IsLive b := .value enabled plugged
      have rendered := ((ih child plugged).mono (fun e h => h.above up) fun _ h => h).reached
      refine rendered.andThen fun emitted reached => ?_
      obtain ⟨-, ledger, after, h⟩ := reached
      cases emitted with
      | value code inner => exact .pure trivial
      | nothing => exact .pure trivial
      | statement code =>
          refine .fail ⟨child, up .self, enabled_of_statement h, rfl, ?_,
            ⟨b, input, .self, enabled, plugged⟩, ledger, code, after, h⟩
          exact fun kindName hk => (Option.some.inj hk).symm

/-- The code of a chain: if its first block leaves a value, that block is to blame. -/
theorem ends_renderChain (chains : b.Chains child)
    (ih : (child.render o .statement false).Ends (child.HasCulprit o) fun _ => True) :
    (renderChain o child).Ends (b.HasCulprit o) fun _ => True := by
  have rendered := (ih.mono (fun e h => h.above chains.isLive) fun _ h => h).reached
  refine rendered.andThen fun emitted reached => ?_
  obtain ⟨-, ledger, after, h⟩ := reached
  cases emitted with
  | statement code => exact .pure trivial
  | nothing => exact .pure trivial
  | value code level =>
      refine .fail ⟨child, chains.isLive .self, enabled_of_value h, rfl, ?_,
        ⟨b, .self, chains⟩, ledger, code, level, after, h⟩
      exact fun kindName hk => (Option.some.inj hk).symm

theorem ends_bodyIn (enabled : b.node.disabled = false) {remarks input indent : String}
    {values : Table (Node × Pass Emitted)}
    (ih : ∀ child, b.statement? input = some child →
      (child.render o .statement false).Ends (child.HasCulprit o) fun _ => True) :
    (Surroundings.bodyIn ⟨remarks, values, renderStatements o b.statements⟩ indent input).Ends
      (b.HasCulprit o) fun _ => True := by
  simp only [Surroundings.bodyIn, get?_renderStatements]
  cases plugged : Table.get? b.statements input with
  | none => exact .pure trivial
  | some child =>
      have chain := ends_renderChain (.inr ⟨enabled, input, plugged⟩) (ih child plugged)
      exact chain.andThen fun code _ => .pure trivial

/-- Every error of a block has a culprit in it. -/
theorem ends_render (o : Options) (b : Block) (place : Place) (alone : Bool) :
    (b.render o place alone).Ends (b.HasCulprit o) fun _ => True := by
  induction b generalizing place alone with
  | mk node values statements next ihv ihs ihn =>
      let b : Block := ⟨node, values, statements, next⟩
      refine ends_render_of_parts (b := b) ?unknown ?following ?script ?values ?bodies
      case unknown =>
        intro on unknown
        refine ⟨b, .self, on, rfl, ?_, unknown⟩
        exact fun kindName hk => (Option.some.inj hk).symm
      case following =>
        exact ends_followingCode fun child h => ends_renderChain (.inl h) (ihn child h _ _)
      case script =>
        exact fun on kind known => (kind.ends_script o node).mono
          (fun e h => HasCulprit.complaint (o := o) (b := b) on h) fun _ _ => trivial
      case values =>
        exact fun on _ _ input level => ends_valueIn on fun child plugged =>
          ihv (input, child) (Table.mem_of_get? plugged) _ _
      case bodies =>
        exact fun on _ _ input => ends_bodyIn on fun child plugged =>
          ihs (input, child) (Table.mem_of_get? plugged) _ _

theorem ends_renderTop (o : Options) (b : Block) :
    (b.renderTop o).Ends (b.HasCulprit o) fun _ => True :=
  (b.ends_render o .top false).andThen fun _ _ => .pure trivial

end Block

/-- The errors of a result: the one that it is, or those that it holds. -/
def reportedErrors {α : Type} (errors : α → List GenerateError) :
    Except GenerateError α → List GenerateError
  | .error error => [error]
  | .ok a => errors a

/-- The blocks at the top that fail, in order, each with its error. A pass that stops at an error
has no more of them, and one that goes on does so from where it was. -/
def passFailures (o : Options) : List Block → Ledger → List (Block × GenerateError)
  | [], _ => []
  | b :: rest, ledger =>
      match b.renderTop o ledger with
      | (.ok _, after) => passFailures o rest after
      | (.error error, _) =>
          match o.errorPolicy with
          | .abort => [(b, error)]
          | .comment => (b, error) :: passFailures o rest ledger

/-- A pass reports the errors of the blocks that fail, one each. -/
theorem reportedErrors_renderAll (o : Options) (blocks : List Block) (ledger : Ledger) :
    reportedErrors Harvest.errors (renderAll o blocks ledger).1 =
      (passFailures o blocks ledger).map Prod.snd := by
  induction blocks generalizing ledger with
  | nil => rfl
  | cons b rest ih =>
      rcases hb : b.renderTop o ledger with ⟨error | line, after⟩
      · cases policy : o.errorPolicy with
        | abort =>
            simp only [renderAll, passFailures, hb, policy]
            rfl
        | comment =>
            -- The rest of the pass does not fail, since errors become comments.
            have tail := ih ledger
            have succeeds := renderAll_fst policy rest ledger
            rcases hr : renderAll o rest ledger with ⟨error' | harvest, mid⟩
            · rw [hr] at succeeds
              exact absurd succeeds (by simp)
            · simp only [renderAll, passFailures, hb, policy, List.map_cons, ← tail, hr]
              rw [Pass.andThen_of_ok hr]
              rfl
      · have tail := ih after
        simp only [renderAll, passFailures, hb, ← tail]
        rcases hr : renderAll o rest after with ⟨error | harvest, mid⟩
        · rw [Pass.andThen_of_error hr]
        · rw [Pass.andThen_of_ok hr]
          rfl

theorem exists_failure_of_mem {o : Options} {blocks : List Block} {ledger : Ledger}
    {failure : Block × GenerateError} (h : failure ∈ passFailures o blocks ledger) :
    failure.1 ∈ blocks ∧
      ∃ own after, failure.1.renderTop o own = (.error failure.2, after) := by
  induction blocks generalizing ledger with
  | nil => exact absurd h List.not_mem_nil
  | cons b rest ih =>
      have later {mid : Ledger} (h : failure ∈ passFailures o rest mid) :=
        (ih h).imp_left (List.mem_cons_of_mem b)
      rcases hb : b.renderTop o ledger with ⟨error | line, after⟩
      · have first : b ∈ b :: rest ∧ ∃ own after, b.renderTop o own = (.error error, after) :=
          ⟨List.mem_cons_self, ledger, after, hb⟩
        cases policy : o.errorPolicy with
        | abort =>
            simp only [passFailures, hb, policy] at h
            obtain rfl := List.mem_singleton.mp h
            exact first
        | comment =>
            simp only [passFailures, hb, policy] at h
            rcases List.mem_cons.mp h with rfl | h
            · exact first
            · exact later h
      · simp only [passFailures, hb] at h
        exact later h

/-- A generator reports one error for each block at the top that fails. The error names an enabled
block inside that block: one that is wrong itself or stands where it does not belong. -/
theorem generate_culprits (g : Generator) (w : Workspace) :
    let failures := passFailures g.options w.orderedBlocks (Ledger.declareNames {} w.walk)
    reportedErrors Program.errors (g.generate w).1 = failures.map Prod.snd ∧
      ∀ failure ∈ failures,
        failure.1 ∈ w.orderedBlocks ∧
        (∃ ledger after, failure.1.renderTop g.options ledger = (.error failure.2, after)) ∧
        ∃ culprit, failure.1.IsCulprit g.options failure.2 culprit ∧
          culprit.node ∈ failure.1.walk := by
  intro failures
  refine ⟨?_, fun failure hf => ?_⟩
  · have reported := reportedErrors_renderAll g.options w.orderedBlocks
      (Ledger.declareNames {} w.walk)
    rw [← reported]
    simp only [Generator.generate, Ledger.reset_eq]
    rcases renderAll g.options w.orderedBlocks (Ledger.declareNames {} w.walk) with
      ⟨error | harvest, final⟩ <;> rfl
  · obtain ⟨top, ledger, after, fails⟩ := exists_failure_of_mem hf
    have culprit := failure.1.ends_renderTop g.options ledger
    rw [fails] at culprit
    obtain ⟨culprit, isCulprit⟩ := culprit
    exact ⟨top, ⟨ledger, after, fails⟩, culprit, isCulprit,
      isCulprit.live.isPart.mem_walk culprit.node_mem_walk⟩

/-- The block that is plugged in is named, and not the one that it is plugged into. -/
example :
    let pause : Block := { node := { id := "w", kindName := "wait" } }
    let print : Block :=
      { node := { id := "p", kindName := "text_print" }, values := [("TEXT", pause)] }
    generate {} { blocks := [print] } = .error (.expectedValue "w" "wait") := by
  decide +kernel

end BlockScript
