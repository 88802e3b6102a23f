import BlockScript.Proofs.Rendering.Chains
import BlockScript.Proofs.Template.Inputs
import BlockScript.Proofs.Workspace.Filed

/-! # Inputs are looked up where they are filed

A block keeps what is plugged into it in two tables, values and statements, and its kind tells which
of its inputs is in which. A loader that has to tell them apart files by the kind, and the script of
the block looks only where the kind says: an entry in the other table changes nothing. -/

namespace BlockScript

namespace Table
variable {α : Type}

/-- Two tables have the same entries in the same order, apart from those under a key. -/
def AgreeApartFrom (key : String) (t t' : Table α) : Prop :=
  t.filter (·.1 ≠ key) = t'.filter (·.1 ≠ key)

theorem get?_filter_ne (t : Table α) {key other : String} (h : other ≠ key) :
    get? (t.filter (·.1 ≠ key)) other = t.get? other := by
  induction t with
  | nil => rfl
  | cons e rest ih =>
      by_cases same : e.1 = key
      · obtain rfl := same
        simpa [get?, Ne.symm h] using ih
      · simp only [ne_eq, same, not_false_eq_true, decide_true, List.filter_cons_of_pos, get?]
        split
        · rfl
        · simpa using ih

/-- What is under other keys is found in both tables. -/
theorem AgreeApartFrom.get?_eq {t t' : Table α} {key other : String} (h : AgreeApartFrom key t t')
    (hne : other ≠ key) : t.get? other = t'.get? other :=
  calc t.get? other
      _ = get? (t.filter (·.1 ≠ key)) other := (get?_filter_ne t hne).symm
      _ = get? (t'.filter (·.1 ≠ key)) other := congrArg (get? · other) h
      _ = t'.get? other := get?_filter_ne t' hne

end Table

open Table (AgreeApartFrom)

/-- Nothing that is plugged into an input carries a remark. -/
def Unremarked (input : String) (values : Table Block) : Prop :=
  ∀ entry ∈ values, entry.1 = input → entry.2.remarks = []

theorem valueRemarkLines_of_unremarked {b : Block} (h : b.remarks = []) :
    valueRemarkLines b = "" := by
  rw [valueRemarkLines, h]

/-- Values without remarks leave the comment lines of their block as they are. -/
theorem join_valueRemarkLines_filter {input : String} {values : Table Block}
    (h : Unremarked input values) :
    String.join ((values.filter (·.1 ≠ input)).map fun entry => valueRemarkLines entry.2) =
      String.join (values.map fun entry => valueRemarkLines entry.2) := by
  induction values with
  | nil => rfl
  | cons first rest ih =>
      obtain ⟨own, others⟩ := List.forall_mem_cons.mp h
      by_cases same : first.1 = input
      · simpa [same, valueRemarkLines_of_unremarked (own same)] using ih others
      · simpa [same] using ih others

theorem remarkLines_eq_of_agree {input : String} {values values' : Table Block}
    (h : AgreeApartFrom input values values') (unremarked : Unremarked input values)
    (unremarked' : Unremarked input values') (kind : Kind) (n : Node) :
    remarkLines kind n values = remarkLines kind n values' := by
  rw [remarkLines, remarkLines, ← join_valueRemarkLines_filter unremarked, h,
    join_valueRemarkLines_filter unremarked']

namespace Block
variable {o : Options} {kind : Kind} {b : Block} {input : String}

/-- The values in a statement input are never looked up. -/
theorem own_withValues (statement : kind.isStatementInput input = true) {values : Table Block}
    (h : AgreeApartFrom input b.values values) (unremarked : Unremarked input b.values)
    (unremarked' : Unremarked input values) :
    { b with values }.own o kind = b.own o kind := by
  refine (kind.stays_script o b.node).run_congr ?_ (fun other within => ?_) fun _ _ => rfl
  · exact (remarkLines_eq_of_agree h unremarked unremarked' kind b.node).symm
  · have hne : other ≠ input := by
      rintro rfl
      exact absurd (statement.symm.trans within) (by decide)
    simp only [get?_renderValues, h.get?_eq hne]

/-- The chains in a value input are never looked up. -/
theorem own_withStatements (value : kind.isStatementInput input = false)
    {statements : Table Block} (h : AgreeApartFrom input b.statements statements) :
    { b with statements }.own o kind = b.own o kind := by
  refine (kind.stays_script o b.node).run_congr rfl (fun _ _ => rfl) fun other within => ?_
  have hne : other ≠ input := by
    rintro rfl
    exact absurd (value.symm.trans within) (by decide)
  simp only [get?_renderStatements, h.get?_eq hne]

/-- The code of a block does not depend on what its table of values has under a statement input, if
that has no remarks, and not on what its table of statements has under any other input. The loader
that tells the two apart by the kind of a block files every input where the script of the block
may look for it. -/
theorem own_ignores_misfiled (kind : Kind) (input : String) :
    (kind.isStatementInput input = true → ∀ (o : Options) (b : Block) (values : Table Block),
      AgreeApartFrom input b.values values → Unremarked input b.values →
        Unremarked input values → { b with values }.own o kind = b.own o kind) ∧
    (kind.isStatementInput input = false →
      ∀ (o : Options) (b : Block) (statements : Table Block),
        AgreeApartFrom input b.statements statements →
          { b with statements }.own o kind = b.own o kind) ∧
    (∀ (o : Options) (n : Node), (kind.script o n).Stays kind.reach fun _ => True) ∧
    ∀ declared v made loaded last,
      (Workspace.OfJson.view declared v).block made = .ok (loaded, last) →
      Kind.ofTypeName? loaded.node.kindName = some kind →
        (input ∈ Table.keys loaded.values → kind.reach.values input) ∧
        (input ∈ Table.keys loaded.statements → kind.reach.bodies input) := by
  refine ⟨?values, ?statements, ?script, ?loader⟩
  case values => exact fun statement o b values => own_withValues statement
  case statements => exact fun value o b statements => own_withStatements value
  case script => exact fun o n => (kind.stays_script o n).imp fun _ _ => trivial
  case loader =>
    intro declared v made loaded last h known
    have filed := Workspace.OfJson.isFiled_view h known
    exact ⟨filed.values input, filed.statements input⟩

/-- A condition with a branch that prints. -/
def printIf : Block where
  node := { id := "c", kindName := "controls_if" }
  values := [("IF0",
    { node := { id := "t", kindName := "logic_boolean", fields := [("BOOL", "TRUE")] } })]
  statements := [("DO0", { node := { id := "p", kindName := "text_print" } })]

/-- A saved block that prints a text. -/
def savedPrint : Json.Value :=
  .object [("type", .string "text_print"),
    ("inputs", .object [("TEXT", .object [("block", .object [("type", .string "text")])])])]

/-- A value in place of a branch, and a chain in place of a condition, are not looked at; and the
text of a saved block is filed as a value. -/
theorem own_ignores_misfiled_printIf :
    (∀ child : Block, child.remarks = [] →
      { printIf with values := ("DO0", child) :: printIf.values }.own {} .controlsIf =
        printIf.own {} .controlsIf) ∧
    (∀ child : Block, { printIf with statements := ("IF0", child) :: printIf.statements }.own {}
      .controlsIf = printIf.own {} .controlsIf) ∧
    ∃ loaded last, (Workspace.OfJson.view [] savedPrint).block 0 = .ok (loaded, last) ∧
      "TEXT" ∈ Table.keys loaded.values ∧ Kind.textPrint.reach.values "TEXT" := by
  refine ⟨?_, ?_, ?_⟩
  · intro child unremarked
    refine (own_ignores_misfiled .controlsIf "DO0").1 (by decide) {} printIf _ ?_ ?_ ?_
    · simp [AgreeApartFrom]
    · intro entry member same
      obtain rfl := List.mem_singleton.mp member
      exact absurd same (by decide)
    · intro entry member same
      rcases List.mem_cons.mp member with rfl | member
      · exact unremarked
      · obtain rfl := List.mem_singleton.mp member
        exact absurd same (by decide)
  · intro child
    refine (own_ignores_misfiled .controlsIf "IF0").2.1 (by decide) {} printIf _ ?_
    simp [AgreeApartFrom]
  · obtain ⟨loaded, last, h, known, filed⟩ : ∃ loaded last,
        (Workspace.OfJson.view [] savedPrint).block 0 = .ok (loaded, last) ∧
        Kind.ofTypeName? loaded.node.kindName = some .textPrint ∧
          "TEXT" ∈ Table.keys loaded.values :=
      ⟨_, _, rfl, by decide +kernel, List.mem_cons_self⟩
    exact ⟨loaded, last, h, filed,
      ((own_ignores_misfiled .textPrint "TEXT").2.2.2 [] savedPrint 0 loaded last h known).1 filed⟩

end Block

end BlockScript
