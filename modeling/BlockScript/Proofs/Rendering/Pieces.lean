import BlockScript.Proofs.Rendering.Chains
import BlockScript.Proofs.Template.Inputs
import BlockScript.Proofs.Template.Routines

/-! # Pieces of statements

The code of a statement and of all that follows it is made of pieces, one for each block of the
chain that leaves code: the comments of the block and its own statement within its templates. -/

namespace BlockScript

/-- The texts that several blocks leave, one after another. -/
def IsJoined (Leaves : Block → String → Prop) (blocks : List Block) (code : String) : Prop :=
  ∃ pieces, code = String.join pieces ∧ List.Forall₂ Leaves blocks pieces

namespace IsJoined
variable {R R' : Block → String → Prop} {b : Block} {blocks : List Block} {piece code : String}

theorem nil : IsJoined R [] "" := ⟨[], rfl, .nil⟩

theorem cons (h : R b piece) (rest : IsJoined R blocks code) :
    IsJoined R (b :: blocks) (piece ++ code) := by
  obtain ⟨pieces, rfl, hpieces⟩ := rest
  exact ⟨piece :: pieces, String.join_cons.symm, .cons h hpieces⟩

theorem mono (h : IsJoined R blocks code) (imp : ∀ b piece, R b piece → R' b piece) :
    IsJoined R' blocks code := by
  obtain ⟨pieces, rfl, hpieces⟩ := h
  exact ⟨pieces, rfl, hpieces.imp imp⟩

end IsJoined

/-- The code that something rendered puts into a chain; a value has no place in one. -/
def Emitted.chainText? : Emitted → Option String
  | .statement code => some code
  | .nothing => some ""
  | .value _ _ => none

theorem chainText?_of_chainCode {first : Node} {emitted : Emitted} {ledger after : Ledger}
    {code : String} (h : chainCode first emitted ledger = (.ok code, after)) :
    emitted.chainText? = some code := by
  cases emitted with
  | value text level => simp [chainCode, Pass.fail] at h
  | statement text | nothing =>
      obtain ⟨rfl, -⟩ := Pass.pure_eq_ok.mp h
      rfl

/-- What is left of a disabled block is the code that follows it. -/
theorem followingCode_of_skipDisabled {alone : Bool} {next : Option (Pass String)}
    {emitted : Emitted} {ledger after : Ledger} {code : String}
    (h : skipDisabled alone next ledger = (.ok emitted, after))
    (hcode : emitted.chainText? = some code) :
    followingCode alone next ledger = (.ok code, after) := by
  have silent (hpure : Pass.pure Emitted.nothing ledger = (.ok emitted, after)) :
      Pass.pure "" ledger = (.ok code, after) := by
    obtain ⟨rfl, rfl⟩ := Pass.pure_eq_ok.mp hpure
    obtain rfl := Option.some.inj hcode
    rfl
  cases alone with
  | true => exact silent h
  | false =>
      cases next with
      | none => exact silent h
      | some step =>
          obtain ⟨text, mid, hstep, hpure⟩ := Pass.andThen_eq_ok.mp h
          obtain ⟨rfl, rfl⟩ := Pass.pure_eq_ok.mp hpure
          obtain rfl := Option.some.inj hcode
          exact hstep

/-- The prefix template in front of the code of a block; some kinds place it themselves. -/
def prefixBefore (o : Options) (kind : Kind) (n : Node) : String :=
  if kind.suppressesTemplates then "" else (o.prefixFor n.id).getD ""

/-- The suffix template behind the code of a block; some kinds place it themselves. -/
def suffixBehind (o : Options) (kind : Kind) (n : Node) : String :=
  if kind.suppressesTemplates then "" else (o.suffixFor n.id).getD ""

theorem withTemplates_eq (o : Options) (kind : Kind) (n : Node) (code : String) :
    withTemplates o kind n code = prefixBefore o kind n ++ code ++ suffixBehind o kind n := by
  unfold withTemplates prefixBefore suffixBehind
  split <;> simp

namespace Block
variable {o : Options} {b : Block} {place : Place} {alone : Bool} {ledger after : Ledger}
  {code : String}

/-- What a script leaves at the place of its block. -/
theorem own_leaves {kind : Kind} {emitted : Emitted}
    (h : b.own o kind ledger = (.ok emitted, after)) : kind.Leaves o b.node emitted :=
  (kind.stays_script o b.node).result h

/-- What a block at a place adds to the code of its chain: its comments, and its own statement
within its templates. -/
inductive IsPiece (o : Options) (place : Place) (b : Block) : String → Prop
  | mk {kind : Kind} {ledger mid : Ledger} {body : String}
      (known : Kind.ofTypeName? b.node.kindName = some kind)
      (run : b.own o kind ledger = (.ok (.statement body), mid)) :
      IsPiece o place b
        (remarksAt place (remarkLines kind b.node b.values) ++ withTemplates o kind b.node body)

/-- The blocks whose code is in the code of a block that is rendered alone, or with all that
follows it. -/
def contributors (alone : Bool) (b : Block) : List Block :=
  (if alone then [b] else untilDefinition b.chain).filter (·.node.leavesCode)

/-- The blocks whose code follows that of a block. -/
def nextContributors (alone : Bool) (next : Option Block) : List Block :=
  if alone then [] else (untilDefinition (chainNext next)).filter (·.node.leavesCode)

theorem contributors_of_disabled (off : b.node.disabled = true) :
    b.contributors alone = nextContributors alone b.next := by
  have silent : b.node.leavesCode = false := by simp [Node.leavesCode, off]
  have ordinary : ¬ b.node.Defines := fun defines => absurd (off.symm.trans defines.1) (by decide)
  rw [contributors, nextContributors, chain_eq, untilDefinition, if_neg ordinary]
  cases alone <;> simp [silent]

theorem contributors_of_defines {kind : Kind} (known : Kind.ofTypeName? b.node.kindName = some kind)
    (on : b.node.disabled = false) (definition : kind.isProcedureDefinition = true) :
    b.contributors alone = [] := by
  have silent : b.node.leavesCode = false := by simp [Node.leavesCode, known, definition]
  have defines : b.node.Defines := ⟨on, kind, known, definition⟩
  rw [contributors, chain_eq, untilDefinition, if_pos defines]
  simp [silent]

theorem contributors_of_ordinary {kind : Kind}
    (known : Kind.ofTypeName? b.node.kindName = some kind) (on : b.node.disabled = false)
    (ordinary : kind.isProcedureDefinition = false) :
    b.contributors alone = b :: nextContributors alone b.next := by
  have leaves : b.node.leavesCode = true := by simp [Node.leavesCode, known, on, ordinary]
  have goesOn : ¬ b.node.Defines := by
    rintro ⟨-, kind', known', definition⟩
    obtain rfl := Option.some.inj (known.symm.trans known')
    exact absurd (definition.symm.trans ordinary) (by decide)
  rw [contributors, nextContributors, chain_eq, untilDefinition, if_neg goesOn]
  cases alone <;> simp [leaves]

section Next
variable {next : Option Block}
  (rest : ∀ child ∈ next, ∀ ledger code after, renderChain o child ledger = (.ok code, after) →
    IsJoined (IsPiece o .statement) (child.contributors false) code)
include rest

/-- The code that follows a block is joined from pieces if the chain below it is. -/
theorem isJoined_following
    (h : followingCode alone (renderNext o next) ledger = (.ok code, after)) :
    IsJoined (IsPiece o .statement) (nextContributors alone next) code := by
  have empty (hpure : Pass.pure "" ledger = (.ok code, after)) :
      IsJoined (IsPiece o .statement) [] code := by
    obtain ⟨rfl, -⟩ := Pass.pure_eq_ok.mp hpure
    exact .nil
  cases alone with
  | true => exact empty h
  | false =>
      cases next with
      | none => exact empty h
      | some child => exact rest child rfl ledger code after h

end Next

/-- An enabled block that is rendered without an error has a kind. -/
theorem exists_kind_of_render {emitted : Emitted} (on : b.node.disabled = false)
    (h : b.render o place alone ledger = (.ok emitted, after)) :
    ∃ kind, Kind.ofTypeName? b.node.kindName = some kind := by
  cases known : Kind.ofTypeName? b.node.kindName with
  | none =>
      rw [render_eq] at h
      simp [renderNode, on, known, Pass.fail] at h
  | some kind => exact ⟨kind, rfl⟩

/-- What a block at a place is joined from, if the code that follows it is known: its own piece
stands in front of that code, unless the block is disabled or a definition. -/
theorem isJoined_of_next {emitted : Emitted}
    (rest : ∀ child ∈ b.next, ∀ ledger code after,
      renderChain o child ledger = (.ok code, after) →
        IsJoined (IsPiece o .statement) (child.contributors false) code)
    (h : b.render o place alone ledger = (.ok emitted, after)) :
    ∀ code ∈ emitted.chainText?,
      IsJoined (fun b piece => b.IsPiece o place piece ∨ b.IsPiece o .statement piece)
        (b.contributors alone) code := by
  intro code hcode
  by_cases off : b.node.disabled = true
  · rw [render_eq, renderNode, if_pos off] at h
    rw [contributors_of_disabled off]
    exact (isJoined_following rest (followingCode_of_skipDisabled h hcode)).mono fun _ _ => .inr
  · have on : b.node.disabled = false := eq_false_of_ne_true off
    obtain ⟨kind, known⟩ := exists_kind_of_render on h
    obtain ⟨own, mid, events, runs, around, -⟩ := runs_script on known h
    have definition := Kind.eq_nothing_iff runs.run
    cases own with
    | value text level =>
        obtain ⟨rfl, -⟩ := Pass.pure_eq_ok.mp around
        simp [Emitted.chainText?] at hcode
    | nothing =>
        obtain ⟨rfl, -⟩ := Pass.pure_eq_ok.mp around
        obtain rfl := Option.some.inj hcode
        rw [contributors_of_defines known on (definition.mp rfl)]
        exact .nil
    | statement body =>
        obtain ⟨more, last, hmore, hpure⟩ := Pass.andThen_eq_ok.mp around
        obtain ⟨rfl, -⟩ := Pass.pure_eq_ok.mp hpure
        obtain rfl := Option.some.inj hcode
        have ordinary : kind.isProcedureDefinition = false :=
          eq_false_of_ne_true fun h => Emitted.noConfusion (definition.mpr h)
        rw [contributors_of_ordinary known on ordinary]
        refine .cons (.inl ?_) ((isJoined_following rest hmore).mono fun _ _ => .inr)
        exact .mk known runs.run

/-- The code of a chain is joined from the pieces of its blocks. -/
theorem isJoined_renderChain (h : renderChain o b ledger = (.ok code, after)) :
    IsJoined (IsPiece o .statement) (b.contributors false) code := by
  induction b generalizing ledger code after with
  | mk node values statements next _ _ rest =>
      obtain ⟨emitted, mid, hrender, hchain⟩ := Pass.andThen_eq_ok.mp h
      have joined := isJoined_of_next (fun child hc ledger code after => rest child hc) hrender code
        (chainText?_of_chainCode hchain)
      exact joined.mono fun _ _ => Or.rec id id

/-- The code of a block at a place, with that of all that follows it, is joined from pieces. -/
theorem isJoined_render (h : b.render o place alone ledger = (.ok (.statement code), after)) :
    IsJoined (fun b piece => b.IsPiece o place piece ∨ b.IsPiece o .statement piece)
      (b.contributors alone) code :=
  isJoined_of_next (fun _ _ _ _ _ => isJoined_renderChain) h code rfl

end Block

end BlockScript
