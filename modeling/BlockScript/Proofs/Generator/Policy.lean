import BlockScript.Proofs.Generator.Recovery

/-! # Stopping at an error or going on

What becomes of an error is settled between the blocks at the top: no block is rendered differently
for it. A pass that stops at errors and one that goes on are therefore the same up to the first
block that fails. -/

namespace BlockScript

/-- The same options with a policy for errors. -/
def Options.withPolicy (o : Options) (policy : ErrorPolicy) : Options :=
  { o with errorPolicy := policy }

@[simp] theorem Options.errorPolicy_withPolicy (o : Options) (policy : ErrorPolicy) :
    (o.withPolicy policy).errorPolicy = policy := rfl

/-! No block is rendered differently. -/

section Rendering
variable (o : Options) (policy : ErrorPolicy)

theorem Kind.script_withPolicy (kind : Kind) (n : Node) :
    kind.script (o.withPolicy policy) n = kind.script o n := by
  cases kind <;> rfl

theorem Script.run_withPolicy {α : Type} (s : Surroundings) (script : Script α) :
    script.run (o.withPolicy policy) s = script.run o s := by
  induction script with
  | done a => rfl
  | fail error => rfl
  | value input level next ih => simp only [run, ih]
  | body input next ih =>
      simp only [run, ih]
      rfl
  | hasBody input next ih => simp only [run, ih]
  | remarks next ih => simp only [run, ih]
  | name category raw next ih => simp only [run, ih]
  | temporary base next ih => simp only [run, ih]
  | helper h next ih =>
      simp only [run, ih]
      rfl
  | require m next ih => simp only [run, ih]
  | define key code next ih => simp only [run, ih]
  | clearWidgets next ih => simp only [run, ih]
  | addWidget widget code next ih => simp only [run, ih]
  | widgets next ih => simp only [run, ih]

theorem surround_withPolicy : surround (o.withPolicy policy) = surround o := rfl

namespace Block
variable {o policy} {inputs : List (String × Block)}

theorem renderValues_withPolicy
    (h : ∀ input ∈ inputs, input.2.render (o.withPolicy policy) = input.2.render o) :
    renderValues (o.withPolicy policy) inputs = renderValues o inputs := by
  induction inputs with
  | nil => rfl
  | cons input rest ih =>
      rw [List.forall_mem_cons] at h
      simp only [renderValues, h.1, ih h.2]

theorem renderStatements_withPolicy
    (h : ∀ input ∈ inputs, input.2.render (o.withPolicy policy) = input.2.render o) :
    renderStatements (o.withPolicy policy) inputs = renderStatements o inputs := by
  induction inputs with
  | nil => rfl
  | cons input rest ih =>
      rw [List.forall_mem_cons] at h
      simp only [renderStatements, h.1, ih h.2]

variable (o policy)

/-- A block is rendered without regard to the policy. -/
theorem render_withPolicy (b : Block) : b.render (o.withPolicy policy) = b.render o := by
  induction b with
  | mk node values statements next ihv ihs ihn =>
      have following : renderNext (o.withPolicy policy) next = renderNext o next := by
        cases next with
        | none => rfl
        | some child => simp only [renderNext, ihn child rfl]
      funext place alone
      simp only [render_eq, renderNode, renderValues_withPolicy ihv,
        renderStatements_withPolicy ihs, following, Kind.script_withPolicy, Script.run_withPolicy,
        surround_withPolicy]

theorem renderTop_withPolicy (b : Block) :
    b.renderTop (o.withPolicy policy) = b.renderTop o := by
  simp only [renderTop, render_withPolicy]

end Block

end Rendering

/-! Two passes over the same blocks. -/

/-- What is left by some blocks and then by others. -/
def Harvest.append (h later : Harvest) : Harvest :=
  { lines := h.lines ++ later.lines, errors := h.errors ++ later.errors }

section Pass
variable {o : Options} {blocks : List Block} {ledger final : Ledger} {harvest : Harvest}
  {error : GenerateError}

theorem renderTop_withPolicy_eq {b : Block} {result : Except GenerateError (Option String) × Ledger}
    (h : b.renderTop o ledger = result) (policy : ErrorPolicy) :
    b.renderTop (o.withPolicy policy) ledger = result := by
  rw [Block.renderTop_withPolicy, h]

/-- A pass that stops at errors gives none in its program, and one that goes on is the same. -/
theorem renderAll_comment_of_ok
    (h : renderAll (o.withPolicy .abort) blocks ledger = (.ok harvest, final)) :
    harvest.errors = [] ∧
      renderAll (o.withPolicy .comment) blocks ledger = (.ok harvest, final) := by
  induction blocks generalizing ledger harvest with
  | nil =>
      obtain ⟨hharvest, rfl⟩ := Prod.mk.inj h
      obtain rfl := Except.ok.inj hharvest
      exact ⟨rfl, rfl⟩
  | cons b rest ih =>
      rcases hb : b.renderTop o ledger with ⟨failure | line, mid⟩
      · simp [renderAll, renderTop_withPolicy_eq hb] at h
      · obtain ⟨tail, hrest, rfl⟩ :=
          (renderAll_cons_eq_ok_of_ok (renderTop_withPolicy_eq hb .abort)).mp h
        obtain ⟨errors, same⟩ := ih hrest
        exact ⟨errors, (renderAll_cons_eq_ok_of_ok (renderTop_withPolicy_eq hb .comment)).mpr
          ⟨tail, same, rfl⟩⟩

/-- A pass that stops has come to a block that fails, after blocks that do not. -/
theorem exists_of_renderAll_abort
    (h : renderAll (o.withPolicy .abort) blocks ledger = (.error error, final)) :
    ∃ before b after lines mid, blocks = before ++ b :: after ∧
      renderAll (o.withPolicy .abort) before ledger = (.ok ⟨lines, []⟩, mid) ∧
      b.renderTop o mid = (.error error, final) := by
  induction blocks generalizing ledger with
  | nil => simp [renderAll, Pass.pure] at h
  | cons b rest ih =>
      rcases hb : b.renderTop o ledger with ⟨failure | line, mid⟩
      · refine ⟨[], b, rest, [], ledger, rfl, rfl, ?_⟩
        simp only [renderAll, renderTop_withPolicy_eq hb, Options.errorPolicy_withPolicy] at h
        obtain ⟨herror, rfl⟩ := Prod.mk.inj h
        obtain rfl := Except.error.inj herror
        exact hb
      · have hb' := renderTop_withPolicy_eq hb .abort
        have stopped : renderAll (o.withPolicy .abort) rest mid = (.error error, final) := by
          rw [renderAll_cons_of_ok hb'] at h
          rcases hr : renderAll (o.withPolicy .abort) rest mid with ⟨failure | tail, last⟩
          · rw [Pass.andThen_of_error hr] at h
            exact h
          · rw [Pass.andThen_of_ok hr] at h
            simp [Pass.pure] at h
        obtain ⟨before, c, after, lines, later, rfl, hbefore, hc⟩ := ih stopped
        refine ⟨b :: before, c, after, line.toList ++ lines, later, rfl, ?_, hc⟩
        exact (renderAll_cons_eq_ok_of_ok hb').mpr ⟨_, hbefore, rfl⟩

/-- A pass over some blocks and then others goes on from where the first ones lead. -/
theorem renderAll_append {before after : List Block} {mid : Ledger} {later : Harvest}
    (h : renderAll o before ledger = (.ok harvest, mid))
    (h' : renderAll o after mid = (.ok later, final)) :
    renderAll o (before ++ after) ledger = (.ok (harvest.append later), final) := by
  induction before generalizing ledger harvest with
  | nil =>
      obtain ⟨hharvest, rfl⟩ := Prod.mk.inj h
      obtain rfl := Except.ok.inj hharvest
      exact h'
  | cons b rest ih =>
      rw [List.cons_append]
      rcases hb : b.renderTop o ledger with ⟨failure | line, next⟩
      · cases policy : o.errorPolicy with
        | abort => simp [renderAll, hb, policy] at h
        | comment =>
            obtain ⟨tail, hrest, rfl⟩ := (renderAll_cons_eq_ok_of_error policy hb).mp h
            exact (renderAll_cons_eq_ok_of_error policy hb).mpr ⟨_, ih hrest, rfl⟩
      · obtain ⟨tail, hrest, rfl⟩ := (renderAll_cons_eq_ok_of_ok hb).mp h
        refine (renderAll_cons_eq_ok_of_ok hb).mpr ⟨_, ih hrest, ?_⟩
        simp only [Harvest.append, Harvest.addLine, List.append_assoc]

end Pass

/-! Two programs of the same workspace. -/

/-- The program that a pass leaves. -/
def Harvest.program (harvest : Harvest) (ledger : Ledger) : Program :=
  { imports := ledger.definitions.imports
    definitions := ledger.definitions.definitions
    body := "\n".intercalate harvest.lines
    errors := harvest.errors }

section Programs
variable {o : Options} {w : Workspace} {final : Ledger}

theorem generate_of_renderAll_ok {harvest : Harvest}
    (h : renderAll o w.orderedBlocks (Ledger.declareNames {} w.walk) = (.ok harvest, final)) :
    generate o w = .ok (harvest.program final) := by
  simp only [generate, Generator.generate, Ledger.reset_eq, h]
  rfl

theorem generate_of_renderAll_error {error : GenerateError}
    (h : renderAll o w.orderedBlocks (Ledger.declareNames {} w.walk) = (.error error, final)) :
    generate o w = .error error := by
  simp only [generate, Generator.generate, Ledger.reset_eq, h]
  rfl

end Programs

/-- The comment that takes the place of a block. -/
def placeholder (error : GenerateError) : String := "// error: " ++ error.message ++ "\n"

/-- If a pass that stops at errors gives a program, one that goes on gives the same program, and it
has no errors. If the one stops with an error, then at the first block that fails: the other has
the same lines up to that block, the comment for the error in its place, and after it what the pass
over the remaining blocks gives. -/
theorem generate_policies (o : Options) (w : Workspace) :
    let start := Ledger.declareNames {} w.walk
    (∀ program, generate (o.withPolicy .abort) w = .ok program →
      generate (o.withPolicy .comment) w = .ok program ∧ program.errors = []) ∧
    (∀ error, generate (o.withPolicy .abort) w = .error error →
      ∃ before b after lines mid later program, w.orderedBlocks = before ++ b :: after ∧
        renderAll (o.withPolicy .abort) before start = (.ok ⟨lines, []⟩, mid) ∧
        (b.renderTop (o.withPolicy .abort) mid).1 = .error error ∧
        (renderAll (o.withPolicy .comment) after mid).1 = .ok later ∧
        generate (o.withPolicy .comment) w = .ok program ∧
        program.body = "\n".intercalate (lines ++ placeholder error :: later.lines) ∧
        program.errors = error :: later.errors) := by
  intro start
  constructor
  · intro program success
    rcases h : renderAll (o.withPolicy .abort) w.orderedBlocks start with ⟨error | harvest, final⟩
    · rw [generate_of_renderAll_error h] at success
      cases success
    · obtain ⟨errors, same⟩ := renderAll_comment_of_ok h
      rw [generate_of_renderAll_ok h] at success
      obtain rfl := Except.ok.inj success
      exact ⟨generate_of_renderAll_ok same, errors⟩
  · intro error failure
    rcases h : renderAll (o.withPolicy .abort) w.orderedBlocks start with ⟨error' | harvest, final⟩
    · rw [generate_of_renderAll_error h] at failure
      obtain rfl := Except.error.inj failure
      obtain ⟨before, b, after, lines, mid, order, hbefore, hb⟩ := exists_of_renderAll_abort h
      have rest := renderAll_fst (Options.errorPolicy_withPolicy o .comment) after mid
      obtain ⟨later, last, hafter⟩ :
          ∃ later last, renderAll (o.withPolicy .comment) after mid = (.ok later, last) :=
        ⟨_, _, Prod.ext rest rfl⟩
      have stands := (renderAll_cons_eq_ok_of_error (Options.errorPolicy_withPolicy o .comment)
        (renderTop_withPolicy_eq hb .comment)).mpr ⟨later, hafter, rfl⟩
      have whole := renderAll_append (renderAll_comment_of_ok hbefore).2 stands
      rw [← order] at whole
      refine ⟨before, b, after, lines, mid, later, _, order, hbefore, ?_, ?_,
        generate_of_renderAll_ok whole, rfl, rfl⟩
      · rw [renderTop_withPolicy_eq hb]
      · rw [hafter]
    · rw [generate_of_renderAll_ok h] at failure
      cases failure

/-- A block that prints a variable, at some height. -/
def printing (id : String) (height : Int) : Block :=
  { node := { id, kindName := "text_print", x := some 0, y := some height }
    values := [("TEXT",
      { node := { id := id ++ "v", kindName := "variables_get", fields := [("VAR", id)] } })] }

/-- A block whose kind is unknown, between two that print. -/
def failingBetween : Workspace where
  blocks := [printing "a" 10, printing "b" 30,
    { node := { id := "m", kindName := "mystery", x := some 0, y := some 20 } }]

theorem generate_policies_failingBetween :
    generate (Options.withPolicy {} .abort) { blocks := [printing "a" 10] } =
        .ok { definitions := [("variables", "var a;")], body := "print(a);\n" } ∧
      generate (Options.withPolicy {} .comment) { blocks := [printing "a" 10] } =
        .ok { definitions := [("variables", "var a;")], body := "print(a);\n" } ∧
      generate (Options.withPolicy {} .abort) failingBetween =
        .error (.unknownKind "m" "mystery") ∧
      ∃ program errors,
        generate (Options.withPolicy {} .comment) failingBetween = .ok program ∧
          program.errors = .unknownKind "m" "mystery" :: errors := by
  have success : generate (Options.withPolicy {} .abort) { blocks := [printing "a" 10] } =
      .ok { definitions := [("variables", "var a;")], body := "print(a);\n" } := by rfl
  have failure : generate (Options.withPolicy {} .abort) failingBetween =
      .error (.unknownKind "m" "mystery") := by rfl
  obtain ⟨same, -⟩ := (generate_policies {} { blocks := [printing "a" 10] }).1 _ success
  obtain ⟨_, _, _, _, _, later, program, -, -, -, -, goesOn, -, errors⟩ :=
    (generate_policies {} failingBetween).2 _ failure
  exact ⟨success, same, failure, program, later.errors, goesOn, errors⟩

end BlockScript
