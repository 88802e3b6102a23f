import BlockScript.Workspace.OfJson

/-! # Inputs are filed by kind

JSON does not tell the inputs that hold a value from those that hold statements, so the loader files
each by the kind of its block: a loaded block has in either table only inputs that belong there. -/

namespace BlockScript

/-- A table has the key that is written and those that it had. -/
theorem Table.forall_mem_keys_put {α : Type} {P : String → Prop} {t : Table α} {key : String}
    {value : α} :
    (∀ name ∈ keys (t.put key value), P name) ↔ P key ∧ ∀ name ∈ keys t, P name := by
  rw [keys_put]
  split
  · next h => exact (and_iff_right_of_imp fun all => all key h).symm
  · simp [or_imp, forall_and, and_comm]

namespace Block

/-- The inputs of a block are in the tables that its kind tells. -/
structure IsFiled (kind : Kind) (b : Block) : Prop where
  values : ∀ input ∈ Table.keys b.values, kind.isStatementInput input = false
  statements : ∀ input ∈ Table.keys b.statements, kind.isStatementInput input = true

theorem IsFiled.bare (kind : Kind) (node : Node) : IsFiled kind { node } where
  values := fun _ h => absurd h List.not_mem_nil
  statements := fun _ h => absurd h List.not_mem_nil

end Block

namespace Loading
variable {α β : Type}

theorem bind_eq_ok {step : Loading α} {next : α → Loading β} {made last : Nat} {b : β} :
    (step >>= next) made = .ok (b, last) ↔
      ∃ a mid, step made = .ok (a, mid) ∧ next a mid = .ok (b, last) := by
  change Except.bind (step made) (fun s => next s.1 s.2) = _ ↔ _
  cases step made with
  | error e => simp [Except.bind]
  | ok s =>
      obtain ⟨a, mid⟩ := s
      constructor
      · exact fun h => ⟨a, mid, rfl, h⟩
      · rintro ⟨_, _, same, h⟩
        obtain ⟨rfl, rfl⟩ := Prod.mk.inj (Except.ok.inj same)
        exact h

theorem not_fail {error : LoadError} {made last : Nat} {a : α} :
    Loading.fail error made ≠ .ok (a, last) := nofun

theorem pure_eq_ok {a b : α} {made last : Nat} :
    (pure a : Loading α) made = .ok (b, last) ↔ a = b ∧ made = last := by
  change Except.ok (a, made) = _ ↔ _
  simp

end Loading

namespace Workspace.OfJson
variable {kind : Kind} {b loaded : Block} {made last : Nat}

theorem node_addInput {input : String × Option (Loading Block)}
    (h : addInput b input made = .ok (loaded, last)) : loaded.node = b.node := by
  obtain ⟨name, content⟩ := input
  cases content with
  | none =>
      obtain ⟨rfl, -⟩ := Loading.pure_eq_ok.mp h
      rfl
  | some step =>
      obtain ⟨child, mid, -, hfile⟩ := Loading.bind_eq_ok.mp h
      cases known : Kind.ofTypeName? b.node.kindName with
      | none =>
          simp only [known] at hfile
          obtain ⟨rfl, -⟩ := Loading.pure_eq_ok.mp hfile
          rfl
      | some kind =>
          simp only [known] at hfile
          split at hfile <;>
          · obtain ⟨rfl, -⟩ := Loading.pure_eq_ok.mp hfile
            rfl

theorem node_foldlM {inputs : List (String × Option (Loading Block))}
    (h : inputs.foldlM addInput b made = .ok (loaded, last)) : loaded.node = b.node := by
  induction inputs generalizing b made with
  | nil =>
      obtain ⟨rfl, -⟩ := Loading.pure_eq_ok.mp h
      rfl
  | cons input rest ih =>
      rw [List.foldlM_cons] at h
      obtain ⟨next, mid, hinput, hrest⟩ := Loading.bind_eq_ok.mp h
      exact (ih hrest).trans (node_addInput hinput)

/-- An input is filed by the kind of its block. -/
theorem isFiled_addInput (known : Kind.ofTypeName? b.node.kindName = some kind)
    (filed : b.IsFiled kind) {input : String × Option (Loading Block)}
    (h : addInput b input made = .ok (loaded, last)) : loaded.IsFiled kind := by
  obtain ⟨name, content⟩ := input
  cases content with
  | none =>
      obtain ⟨rfl, -⟩ := Loading.pure_eq_ok.mp h
      exact filed
  | some step =>
      obtain ⟨child, mid, -, hfile⟩ := Loading.bind_eq_ok.mp h
      simp only [known] at hfile
      split at hfile
      · next statement =>
          obtain ⟨rfl, -⟩ := Loading.pure_eq_ok.mp hfile
          exact ⟨filed.values, Table.forall_mem_keys_put.mpr ⟨statement, filed.statements⟩⟩
      · next value =>
          obtain ⟨rfl, -⟩ := Loading.pure_eq_ok.mp hfile
          have other : kind.isStatementInput name = false := eq_false_of_ne_true value
          exact ⟨Table.forall_mem_keys_put.mpr ⟨other, filed.values⟩, filed.statements⟩

/-- All inputs are, one after another. -/
theorem isFiled_foldlM {inputs : List (String × Option (Loading Block))}
    (filed : b.IsFiled kind) (h : inputs.foldlM addInput b made = .ok (loaded, last))
    (known : Kind.ofTypeName? loaded.node.kindName = some kind) : loaded.IsFiled kind := by
  have kept : loaded.node = b.node := node_foldlM h
  rw [kept] at known
  clear kept
  induction inputs generalizing b made with
  | nil =>
      obtain ⟨rfl, -⟩ := Loading.pure_eq_ok.mp h
      exact filed
  | cons input rest ih =>
      rw [List.foldlM_cons] at h
      obtain ⟨next, mid, hinput, hrest⟩ := Loading.bind_eq_ok.mp h
      exact ih (isFiled_addInput known filed hinput) hrest (node_addInput hinput ▸ known)

/-- The block that is made of inputs, and of what follows it, is filed. -/
theorem isFiled_connected {node : Node} {inputs : List (String × Option (Loading Block))}
    {next : Option (Loading Block)} (known : Kind.ofTypeName? loaded.node.kindName = some kind)
    (h : (do
      let b ← inputs.foldlM addInput { node }
      match next with
      | none => pure b
      | some step => return { b with next := some (← step) }) made = .ok (loaded, last)) :
    loaded.IsFiled kind := by
  obtain ⟨b, mid, hinputs, hnext⟩ := Loading.bind_eq_ok.mp h
  cases next with
  | none =>
      obtain ⟨rfl, -⟩ := Loading.pure_eq_ok.mp hnext
      exact isFiled_foldlM (.bare kind node) hinputs known
  | some step =>
      obtain ⟨child, _, -, hpure⟩ := Loading.bind_eq_ok.mp hnext
      obtain ⟨rfl, -⟩ := Loading.pure_eq_ok.mp hpure
      have filed : b.IsFiled kind := isFiled_foldlM (.bare kind node) hinputs known
      exact ⟨filed.values, filed.statements⟩

/-- Every block that is loaded is filed. -/
theorem isFiled_view {declared : List Variable} {v : Json.Value}
    (h : (view declared v).block made = .ok (loaded, last))
    (known : Kind.ofTypeName? loaded.node.kindName = some kind) : loaded.IsFiled kind := by
  cases v with
  | object members =>
      rw [view, blockOf] at h
      obtain ⟨node, m1, -, h⟩ := Loading.bind_eq_ok.mp h
      cases state : (Json.Value.object members).get? "extraState" with
      | none =>
          rw [state] at h
          obtain ⟨mutation, m2, -, h⟩ := Loading.bind_eq_ok.mp h
          exact isFiled_connected known h
      | some text =>
          rw [state] at h
          obtain ⟨mutation, m2, -, h⟩ := Loading.bind_eq_ok.mp h
          exact isFiled_connected known h
  | _ => exact absurd h Loading.not_fail

end Workspace.OfJson

end BlockScript
