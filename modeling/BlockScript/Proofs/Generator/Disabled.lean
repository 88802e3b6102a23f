import BlockScript.Proofs.Rendering.Structure
import BlockScript.Proofs.Workspace.Agreement

/-! # What disabled blocks hold

Whatever a disabled block holds is not rendered, so two workspaces that differ in nothing else have
the same program, if they declare the same names. Remarks are an exception: those of all blocks
below a value are collected, disabled or not. So the remarks below the values of enabled blocks have
to be the same as well. -/

namespace BlockScript

/-- Two blocks differ only in what disabled blocks hold: not in what hangs below a disabled block,
nor in where it stands. What is plugged into enabled blocks as a value is related as told. -/
inductive Block.Alike (plugged : Block → Block → Prop) : Block → Block → Prop
  | off {b b' : Block} (off : b.node.disabled = true) (off' : b'.node.disabled = true)
      (id : b.node.id = b'.node.id) (x : b.node.x = b'.node.x) (y : b.node.y = b'.node.y)
      (next : Option.Rel (Alike plugged) b.next b'.next) : Alike plugged b b'
  | on {b b' : Block} (on : b.node.disabled = false) (node : b.node = b'.node)
      (values : List.Forall₂ (Table.EntryRel (Alike plugged)) b.values b'.values)
      (values_plugged : List.Forall₂ (Table.EntryRel plugged) b.values b'.values)
      (statements : List.Forall₂ (Table.EntryRel (Alike plugged)) b.statements b'.statements)
      (next : Option.Rel (Alike plugged) b.next b'.next) : Alike plugged b b'

/-- The entries under a key are related as the entries of the tables are. -/
theorem Table.get?_rel {α β : Type} {R : α → β → Prop} {t : Table α} {t' : Table β}
    (h : List.Forall₂ (EntryRel R) t t') (key : String) :
    Option.Rel R (t.get? key) (t'.get? key) := by
  induction h with
  | nil => exact .none
  | cons first _ ih =>
      obtain ⟨related⟩ := first
      simp only [get?]
      split
      · exact .some related
      · exact ih

/-- A script runs alike in surroundings that give the same answers. -/
theorem Script.run_congr {α : Type} {o : Options} {s s' : Surroundings}
    (remarks : s.remarks = s'.remarks)
    (values : ∀ input level, s.valueIn input level = s'.valueIn input level)
    (bodies : ∀ input, s.bodyIn o.indent input = s'.bodyIn o.indent input)
    (filled : ∀ input, (s.statements.get? input).isSome = (s'.statements.get? input).isSome)
    (script : Script α) : script.run o s = script.run o s' := by
  induction script with
  | done a => rfl
  | fail error => rfl
  | value input level next ih => simp only [run, values, ih]
  | body input next ih => simp only [run, bodies, ih]
  | hasBody input next ih => simp only [run, filled, ih]
  | remarks next ih => simp only [run, remarks, ih]
  | name category raw next ih => simp only [run, ih]
  | temporary base next ih => simp only [run, ih]
  | helper h next ih => simp only [run, ih]
  | require m next ih => simp only [run, ih]
  | define key code next ih => simp only [run, ih]
  | clearWidgets next ih => simp only [run, ih]
  | addWidget widget code next ih => simp only [run, ih]
  | widgets next ih => simp only [run, ih]

namespace Block
variable {o : Options} {b b' : Block} {plugged : Block → Block → Prop}

/-- Blocks that are alike show the same data, unless both are disabled. -/
theorem Alike.node_eq (h : b.Alike plugged b') (on : b.node.disabled = false) :
    b.node = b'.node := by
  cases h with
  | off off => exact absurd (off.symm.trans on) (by decide)
  | on _ node => exact node

/-- The codes of values are alike if the blocks are: a disabled block leaves none, so that its
error is never given. -/
theorem Alike.valueCode_eq (h : b.Alike plugged b') (level : Precedence)
    (rendered : b.render o .value true = b'.render o .value true) :
    (b.render o .value true).andThen (valueCode b.node level) =
      (b'.render o .value true).andThen (valueCode b'.node level) := by
  funext ledger
  rw [← rendered]
  rcases run : b.render o .value true ledger with ⟨error | emitted, after⟩
  · rw [Pass.andThen_of_error run, Pass.andThen_of_error run]
  · rw [Pass.andThen_of_ok run, Pass.andThen_of_ok run]
    cases emitted with
    | value code inner => rfl
    | nothing => rfl
    | statement code => rw [h.node_eq (enabled_of_statement run)]

theorem Alike.renderChain_eq (h : b.Alike plugged b')
    (rendered : b.render o .statement false = b'.render o .statement false) :
    renderChain o b = renderChain o b' := by
  funext ledger
  unfold renderChain
  rw [← rendered]
  rcases run : b.render o .statement false ledger with ⟨error | emitted, after⟩
  · rw [Pass.andThen_of_error run, Pass.andThen_of_error run]
  · rw [Pass.andThen_of_ok run, Pass.andThen_of_ok run]
    cases emitted with
    | statement code => rfl
    | nothing => rfl
    | value code level => rw [h.node_eq (enabled_of_value run)]

/-- The remark lines of a block depend on the remarks in its values alone. -/
theorem remarkLines_eq {values values' : List (String × Block)}
    (h : List.Forall₂ (Table.EntryRel fun c c' : Block => c.remarks = c'.remarks) values values')
    (kind : Kind) (n : Node) : remarkLines kind n values = remarkLines kind n values' := by
  have lines : values.map (fun input => valueRemarkLines input.2) =
      values'.map fun input => valueRemarkLines input.2 := by
    induction h with
    | nil => rfl
    | cons first _ ih =>
        obtain ⟨remarks⟩ := first
        rw [List.map_cons, List.map_cons, ih, valueRemarkLines, valueRemarkLines, remarks]
  rw [remarkLines, remarkLines, lines]

section Inputs
variable {inputs inputs' : List (String × Block)}

/-- What is found under the name of an input is alike, or there is nothing in both tables. -/
theorem found_alike (alike : List.Forall₂ (Table.EntryRel (Alike plugged)) inputs inputs')
    (input : String) :
    (Table.get? inputs input = none ∧ Table.get? inputs' input = none) ∨
      ∃ child child', (input, child) ∈ inputs ∧ Table.get? inputs input = some child ∧
        Table.get? inputs' input = some child' ∧ child.Alike plugged child' := by
  have related := Table.get?_rel alike input
  rcases found : Table.get? inputs input with _ | child <;>
    rcases found' : Table.get? inputs' input with _ | child' <;>
    rw [found, found'] at related
  · exact .inl ⟨rfl, rfl⟩
  · cases related
  · cases related
  · obtain ⟨same⟩ := related
    exact .inr ⟨child, child', Table.mem_of_get? found, rfl, rfl, same⟩

theorem valueIn_eq {remarks remarks' : String} {statements statements' : Table (Pass String)}
    (alike : List.Forall₂ (Table.EntryRel (Alike plugged)) inputs inputs')
    (rendered : ∀ input ∈ inputs, ∀ {child' : Block}, input.2.Alike plugged child' →
      input.2.render o .value true = child'.render o .value true)
    (input : String) (level : Precedence) :
    Surroundings.valueIn ⟨remarks, renderValues o inputs, statements⟩ input level =
      Surroundings.valueIn ⟨remarks', renderValues o inputs', statements'⟩ input level := by
  simp only [Surroundings.valueIn, get?_renderValues]
  rcases found_alike alike input with ⟨none, none'⟩ | ⟨child, child', hi, found, found', same⟩
  · rw [none, none']
  · rw [found, found']
    exact same.valueCode_eq level (rendered _ hi same)

theorem bodyIn_eq {remarks remarks' indent : String}
    {values values' : Table (Node × Pass Emitted)}
    (alike : List.Forall₂ (Table.EntryRel (Alike plugged)) inputs inputs')
    (rendered : ∀ input ∈ inputs, ∀ {child' : Block}, input.2.Alike plugged child' →
      input.2.render o .statement false = child'.render o .statement false) (input : String) :
    Surroundings.bodyIn ⟨remarks, values, renderStatements o inputs⟩ indent input =
      Surroundings.bodyIn ⟨remarks', values', renderStatements o inputs'⟩ indent input := by
  simp only [Surroundings.bodyIn, get?_renderStatements]
  rcases found_alike alike input with ⟨none, none'⟩ | ⟨child, child', hi, found, found', same⟩
  · rw [none, none']
  · rw [found, found', Option.map_some, Option.map_some,
      same.renderChain_eq (rendered _ hi same)]

theorem isSome_renderStatements_eq
    (alike : List.Forall₂ (Table.EntryRel (Alike plugged)) inputs inputs') (input : String) :
    (Table.get? (renderStatements o inputs) input).isSome =
      (Table.get? (renderStatements o inputs') input).isSome := by
  rw [get?_renderStatements, get?_renderStatements]
  rcases found_alike alike input with ⟨none, none'⟩ | ⟨child, child', -, found, found', -⟩
  · rw [none, none']
  · rw [found, found', Option.isSome_map, Option.isSome_map]
    rfl

end Inputs

/-- Blocks that are alike, and have the same remarks in their values, are rendered alike. -/
theorem Alike.render_eq (h : b.Alike (fun c c' => c.remarks = c'.remarks) b') (place : Place)
    (alone : Bool) : b.render o place alone = b'.render o place alone := by
  induction b generalizing b' place alone with
  | mk node values statements next ihv ihs ihn =>
      have following {next' : Option Block}
          (h : Option.Rel (Alike fun c c' => c.remarks = c'.remarks) next next') :
          renderNext o next = renderNext o next' := by
        cases h with
        | none => rfl
        | some alike =>
            rw [renderNext_eq, renderNext_eq]
            exact congrArg some (alike.renderChain_eq (ihn _ rfl alike _ _))
      obtain ⟨node', values', statements', next'⟩ := b'
      rw [Block.render_eq, Block.render_eq]
      cases h with
      | off off off' id x y rest =>
          unfold renderNode
          rw [if_pos off, if_pos off', following rest]
      | on on same alike remarks below rest =>
          obtain rfl : node = node' := same
          have lines (kind : Kind) : remarkLines kind node values = remarkLines kind node values' :=
            remarkLines_eq remarks kind node
          have run (remarks : String) (script : Script Emitted) :
              script.run o ⟨remarks, renderValues o values, renderStatements o statements⟩ =
                script.run o ⟨remarks, renderValues o values', renderStatements o statements'⟩ :=
            Script.run_congr (by rfl)
              (valueIn_eq alike fun input hi _ h => ihv input hi h _ _)
              (bodyIn_eq below fun input hi _ h => ihs input hi h _ _)
              (isSome_renderStatements_eq below) script
          have next := following rest
          simp only [renderNode, lines, run, next]

/-- Blocks that are alike are read at the same time. -/
theorem Alike.comesFirst_eq {c c' : Block} (h : b.Alike plugged b') (h' : c.Alike plugged c') :
    b.node.comesFirst c.node = b'.node.comesFirst c'.node := by
  have place {b b' : Block} (h : b.Alike plugged b') :
      b.node.id = b'.node.id ∧ b.node.x = b'.node.x ∧ b.node.y = b'.node.y := by
    cases h with
    | off _ _ id x y => exact ⟨id, x, y⟩
    | on _ node => exact node ▸ ⟨rfl, rfl, rfl⟩
  obtain ⟨id, x, y⟩ := place h
  obtain ⟨id', x', y'⟩ := place h'
  simp only [Node.comesFirst, id, x, y, id', x', y']

end Block

section Workspaces
variable {blocks blocks' : List Block} {plugged : Block → Block → Prop}

theorem alike_insertBlock {b b' : Block} (first : b.Alike plugged b')
    (h : List.Forall₂ (Block.Alike plugged) blocks blocks') :
    List.Forall₂ (Block.Alike plugged) (Workspace.insertBlock b blocks)
      (Workspace.insertBlock b' blocks') := by
  induction h with
  | nil => exact .cons first .nil
  | cons second rest ih =>
      simp only [Workspace.insertBlock, first.comesFirst_eq second]
      split
      · exact .cons first (.cons second rest)
      · exact .cons second ih

theorem alike_inOrder (h : List.Forall₂ (Block.Alike plugged) blocks blocks') :
    List.Forall₂ (Block.Alike plugged) (Workspace.inOrder blocks)
      (Workspace.inOrder blocks') := by
  induction h with
  | nil => exact .nil
  | cons first _ ih => exact alike_insertBlock first ih

/-- A pass over blocks that are rendered alike is the same pass. -/
theorem renderAll_congr {o : Options}
    (h : List.Forall₂ (fun b b' : Block => b.renderTop o = b'.renderTop o) blocks blocks') :
    renderAll o blocks = renderAll o blocks' := by
  induction h with
  | nil => rfl
  | cons first _ ih =>
      funext ledger
      simp only [renderAll, first, ih]

/-- Two workspaces that differ only in what disabled blocks hold give the same result, whether it
is a program or an error, if they declare the same names and have the same remarks in the values of
enabled blocks. -/
theorem generate_inert (g : Generator) {w w' : Workspace}
    (alike : List.Forall₂ (Block.Alike fun c c' => c.remarks = c'.remarks) w.blocks w'.blocks)
    (sameVariables : variableNames w.walk = variableNames w'.walk)
    (sameProcedures : definedNames w.walk = definedNames w'.walk) :
    g.generate w = g.generate w' := by
  have declared : g.ledger.reset.declareNames w.walk = g.ledger.reset.declareNames w'.walk := by
    simp only [Ledger.declareNames, sameVariables, sameProcedures]
  have rendered : renderAll g.options w.orderedBlocks = renderAll g.options w'.orderedBlocks := by
    refine renderAll_congr ((alike_inOrder alike).imp fun b b' h => ?_)
    rw [Block.renderTop, Block.renderTop, h.render_eq]
  simp only [Generator.generate, declared, rendered]

end Workspaces

/-- A disabled text with a remark. -/
def disabledText (text : String) (remark : Option String) : Block :=
  { node :=
      { id := "t", kindName := "text", fields := [("TEXT", text)]
        comment := remark, disabled := true } }

/-- A block that prints a disabled text. -/
def printingDisabled (text : String) (remark : Option String) : Block :=
  { node := { id := "p", kindName := "text_print" }
    values := [("TEXT", disabledText text remark)] }

theorem alike_printingDisabled {plugged : Block → Block → Prop} {text text' : String}
    {remark remark' : Option String}
    (h : plugged (disabledText text remark) (disabledText text' remark')) :
    (printingDisabled text remark).Alike plugged (printingDisabled text' remark') := by
  refine .on rfl rfl (.cons ⟨?_⟩ .nil) (.cons ⟨h⟩ .nil) .nil .none
  exact .off rfl rfl rfl rfl rfl .none

theorem generate_inert_disabledText :
    let g : Generator := { options := {} }
    let w : Workspace := { blocks := [printingDisabled "a" (some "off")] }
    let w' : Workspace := { blocks := [printingDisabled "b" (some "off")] }
    List.Forall₂ (Block.Alike fun c c' => c.remarks = c'.remarks) w.blocks w'.blocks ∧
      variableNames w.walk = variableNames w'.walk ∧ definedNames w.walk = definedNames w'.walk ∧
        g.generate w = g.generate w' := by
  intro g w w'
  have alike : List.Forall₂ (Block.Alike fun c c' => c.remarks = c'.remarks) w.blocks w'.blocks :=
    .cons (alike_printingDisabled rfl) .nil
  have variables_eq : variableNames w.walk = variableNames w'.walk := by decide +kernel
  have procedures_eq : definedNames w.walk = definedNames w'.walk := by decide +kernel
  exact ⟨alike, variables_eq, procedures_eq, generate_inert g alike variables_eq procedures_eq⟩

/-- The remark of a disabled text is heard. -/
theorem generate_hears_disabled :
    let w : Workspace := { blocks := [printingDisabled "a" (some "off")] }
    let w' : Workspace := { blocks := [printingDisabled "a" none] }
    List.Forall₂ (Block.Alike fun _ _ => True) w.blocks w'.blocks ∧
      variableNames w.walk = variableNames w'.walk ∧ definedNames w.walk = definedNames w'.walk ∧
        generate {} w = .ok { body := "// off\nprint('');\n" } ∧
          generate {} w' = .ok { body := "print('');\n" } := by
  intro w w'
  refine ⟨.cons (alike_printingDisabled trivial) .nil, ?_, ?_, ?_, ?_⟩ <;> decide +kernel

end BlockScript
