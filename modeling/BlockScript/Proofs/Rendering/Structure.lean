import BlockScript.Generator

/-! # The shape of a rendering

A rendering follows the tree of blocks: each filled input is rendered by a step of its own, found
under the name of the input. Proofs about all blocks go by induction on the tree, and proofs about
the steps of one block by the laws of steps. -/

namespace BlockScript

namespace Pass
variable {α β : Type}

theorem pure_eq_ok {a b : α} {ledger after : Ledger} :
    pure a ledger = (.ok b, after) ↔ a = b ∧ ledger = after := by
  simp [pure]

/-- Two steps in a row succeed exactly if both do. -/
theorem andThen_eq_ok {step : Pass α} {next : α → Pass β} {ledger after : Ledger} {b : β} :
    andThen step next ledger = (.ok b, after) ↔
      ∃ a mid, step ledger = (.ok a, mid) ∧ next a mid = (.ok b, after) := by
  unfold andThen
  constructor
  · intro h
    split at h
    · next a mid hs => exact ⟨a, mid, hs, h⟩
    · simp at h
  · rintro ⟨a, mid, hs, hn⟩
    rw [hs]
    exact hn

theorem andThen_of_ok {step : Pass α} {next : α → Pass β} {ledger mid : Ledger} {a : α}
    (h : step ledger = (.ok a, mid)) : andThen step next ledger = next a mid := by
  simp [andThen, h]

theorem andThen_of_error {step : Pass α} {next : α → Pass β} {ledger mid : Ledger}
    {error : GenerateError} (h : step ledger = (.error error, mid)) :
    andThen step next ledger = (.error error, mid) := by
  simp [andThen, h]

/-- A second step that writes nothing down leaves the ledger of the first. -/
theorem andThen_snd {step : Pass α} {next : α → Pass β}
    (h : ∀ a ledger, (next a ledger).2 = ledger) (ledger : Ledger) :
    (andThen step next ledger).2 = (step ledger).2 := by
  unfold andThen
  split
  · next a mid hs => rw [h, hs]
  · next hs => rw [hs]

end Pass

@[simp] theorem valueCode_snd (child : Node) (level : Precedence) (emitted : Emitted)
    (ledger : Ledger) : (valueCode child level emitted ledger).2 = ledger := by
  cases emitted <;> rfl

@[simp] theorem chainCode_snd (first : Node) (emitted : Emitted) (ledger : Ledger) :
    (chainCode first emitted ledger).2 = ledger := by
  cases emitted <;> rfl

namespace Block

/-- What passes from the blocks plugged into a block, and from the next one, to the block itself
holds of every block. -/
@[elab_as_elim, induction_eliminator]
theorem induct {motive : Block → Prop}
    (mk : ∀ node values statements next,
      (∀ input ∈ values, motive input.2) → (∀ input ∈ statements, motive input.2) →
      (∀ child ∈ next, motive child) → motive ⟨node, values, statements, next⟩)
    (b : Block) : motive b :=
  Block.rec (motive_1 := motive) (motive_2 := fun inputs => ∀ input ∈ inputs, motive input.2)
    (motive_3 := fun next => ∀ child ∈ next, motive child)
    (motive_4 := fun input => motive input.2)
    mk
    (fun _ h => nomatch h)
    (fun _ _ head tail input hi => by
      rcases List.mem_cons.mp hi with rfl | hi
      · exact head
      · exact tail input hi)
    (fun _ h => nomatch h)
    (fun _ ih child hc => by
      obtain rfl := Option.some.inj hc
      exact ih)
    (fun _ _ ih => ih)
    b

variable (o : Options)

theorem render_eq (b : Block) (place : Place) (alone : Bool) :
    b.render o place alone =
      renderNode o b.node b.values (renderValues o b.values) (renderStatements o b.statements)
        (renderNext o b.next) place alone := by
  cases b
  rfl

theorem get?_renderValues (values : List (String × Block)) (input : String) :
    Table.get? (renderValues o values) input =
      (Table.get? values input).map fun child => (child.node, child.render o .value true) := by
  induction values with
  | nil => rfl
  | cons entry rest ih =>
      simp only [renderValues, Table.get?]
      split
      · rfl
      · exact ih

theorem get?_renderStatements (statements : List (String × Block)) (input : String) :
    Table.get? (renderStatements o statements) input =
      (Table.get? statements input).map (renderChain o) := by
  induction statements with
  | nil => rfl
  | cons entry rest ih =>
      simp only [renderStatements, Table.get?]
      split
      · rfl
      · exact ih

theorem renderNext_eq (next : Option Block) : renderNext o next = next.map (renderChain o) := by
  cases next <;> rfl

variable {o : Options} {b : Block} {place : Place} {ledger after : Ledger} {code : String}

/-- A block that stands alone and leaves a statement is enabled. -/
theorem enabled_of_statement
    (h : b.render o place true ledger = (.ok (.statement code), after)) :
    b.node.disabled = false := by
  rw [Bool.eq_false_iff]
  intro off
  rw [render_eq] at h
  simp [renderNode, off, skipDisabled, Pass.pure] at h

/-- Only an enabled block leaves a value. -/
theorem enabled_of_value {alone : Bool} {level : Precedence}
    (h : b.render o place alone ledger = (.ok (.value code level), after)) :
    b.node.disabled = false := by
  rw [Bool.eq_false_iff]
  intro off
  rw [render_eq, renderNode, if_pos off] at h
  cases alone with
  | true => simp [skipDisabled, Pass.pure] at h
  | false =>
      cases following : renderNext o b.next with
      | none => simp [following, skipDisabled, Pass.pure] at h
      | some step =>
          rw [following] at h
          obtain ⟨rest, mid, -, hpure⟩ := Pass.andThen_eq_ok.mp h
          simp [Pass.pure] at hpure

variable {input remarks : String}

/-- What a block offers to its script. -/
abbrev surroundings (o : Options) (b : Block) (remarks : String) : Surroundings :=
  ⟨remarks, renderValues o b.values, renderStatements o b.statements⟩

theorem render_alone_of_disabled (off : b.node.disabled = true) (place : Place) :
    b.render o place true = .pure .nothing := by
  rw [render_eq, renderNode, if_pos off]
  rfl

theorem valueIn_of_missing (missing : b.value? input = none) {level : Precedence} :
    (b.surroundings o remarks).valueIn input level = .pure none := by
  simp only [value?] at missing
  simp only [Surroundings.valueIn, get?_renderValues, missing, Option.map_none]

theorem valueIn_of_plugged {child : Block} (plugged : b.value? input = some child)
    {level : Precedence} :
    (b.surroundings o remarks).valueIn input level =
      (child.render o .value true).andThen (valueCode child.node level) := by
  simp only [value?] at plugged
  simp only [Surroundings.valueIn, get?_renderValues, plugged, Option.map_some]

theorem bodyIn_of_missing (missing : b.statement? input = none) {indent : String} :
    (b.surroundings o remarks).bodyIn indent input = .pure "" := by
  simp only [statement?] at missing
  simp only [Surroundings.bodyIn, get?_renderStatements, missing, Option.map_none]

theorem bodyIn_of_plugged {first : Block} (plugged : b.statement? input = some first)
    {indent : String} :
    (b.surroundings o remarks).bodyIn indent input =
      (renderChain o first).andThen fun code => .pure (Text.prefixLines code indent) := by
  simp only [statement?] at plugged
  simp only [Surroundings.bodyIn, get?_renderStatements, plugged, Option.map_some]

end Block

end BlockScript
