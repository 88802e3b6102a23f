import BlockScript.Proofs.Rendering.Structure

/-! # Recovery from blocks that fail

Where errors become comments, a pass never fails, and a block that fails leaves its comment and
nothing else: all the rest of the pass is the pass over the blocks that do not fail. -/

namespace BlockScript

/-- A result that passes a test is there. -/
theorem exists_ok_of_any {ε α : Type} {result : Except ε α} {test : α → Bool}
    (h : result.toOption.any test = true) : ∃ a, result = .ok a ∧ test a = true := by
  cases result with
  | error error => exact Bool.noConfusion h
  | ok a => exact ⟨a, rfl, h⟩

/-- How rendering a block at the top came out: a line of the body, if it leaves one, or an
error. -/
abbrev Outcome := Except GenerateError (Option String)

/-- What a block leaves in the body: a comment stands for an error. -/
def Outcome.lines : Outcome → List String
  | .ok line => line.toList
  | .error error => ["// error: " ++ error.message ++ "\n"]

def Outcome.error? : Outcome → Option GenerateError
  | .ok _ => none
  | .error error => some error

/-- How the blocks at the top come out one after another, if those that fail are as good as not
there. -/
def outcomes (o : Options) : List Block → Ledger → List (Block × Outcome)
  | [], _ => []
  | b :: rest, ledger =>
      match b.renderTop o ledger with
      | (.ok line, after) => (b, .ok line) :: outcomes o rest after
      | (.error error, _) => (b, .error error) :: outcomes o rest ledger

/-- The outcomes that are no errors. -/
def successes (outs : List (Block × Outcome)) : List (Block × Outcome) :=
  outs.filter fun out => out.2.isOk

/-- The blocks that do not fail, in order. -/
def survivors (outs : List (Block × Outcome)) : List Block :=
  (successes outs).map Prod.fst

@[simp] theorem successes_cons_ok (b : Block) (line : Option String)
    (outs : List (Block × Outcome)) :
    successes ((b, .ok line) :: outs) = (b, .ok line) :: successes outs := rfl

@[simp] theorem successes_cons_error (b : Block) (error : GenerateError)
    (outs : List (Block × Outcome)) :
    successes ((b, .error error) :: outs) = successes outs := rfl

@[simp] theorem survivors_cons_ok (b : Block) (line : Option String)
    (outs : List (Block × Outcome)) :
    survivors ((b, .ok line) :: outs) = b :: survivors outs := rfl

@[simp] theorem survivors_cons_error (b : Block) (error : GenerateError)
    (outs : List (Block × Outcome)) :
    survivors ((b, .error error) :: outs) = survivors outs := rfl

section Outcomes
variable {o : Options} {b : Block} {rest : List Block} {ledger after : Ledger}
  {line : Option String} {error : GenerateError}

theorem outcomes_cons_of_ok (h : b.renderTop o ledger = (.ok line, after)) :
    outcomes o (b :: rest) ledger = (b, .ok line) :: outcomes o rest after := by
  simp [outcomes, h]

theorem outcomes_cons_of_error (h : b.renderTop o ledger = (.error error, after)) :
    outcomes o (b :: rest) ledger = (b, .error error) :: outcomes o rest ledger := by
  simp [outcomes, h]

theorem renderAll_cons_of_ok (h : b.renderTop o ledger = (.ok line, after)) :
    renderAll o (b :: rest) ledger =
      (renderAll o rest).andThen (fun harvest => .pure (harvest.addLine line)) after := by
  simp [renderAll, h]

theorem renderAll_cons_of_error (policy : o.errorPolicy = .comment)
    (h : b.renderTop o ledger = (.error error, after)) :
    renderAll o (b :: rest) ledger =
      (renderAll o rest).andThen (fun harvest => .pure (harvest.addError error)) ledger := by
  simp [renderAll, h, policy]

/-- A pass gets past a block that does not fail exactly if it gets past the blocks after it. -/
theorem renderAll_cons_eq_ok_of_ok {harvest : Harvest} {final : Ledger}
    (h : b.renderTop o ledger = (.ok line, after)) :
    renderAll o (b :: rest) ledger = (.ok harvest, final) ↔
      ∃ tail, renderAll o rest after = (.ok tail, final) ∧ harvest = tail.addLine line := by
  rw [renderAll_cons_of_ok h, Pass.andThen_eq_ok]
  constructor
  · rintro ⟨tail, last, hrest, hpure⟩
    obtain ⟨hharvest, rfl⟩ := Prod.mk.inj hpure
    exact ⟨tail, hrest, (Except.ok.inj hharvest).symm⟩
  · rintro ⟨tail, hrest, rfl⟩
    exact ⟨tail, final, hrest, rfl⟩

/-- A pass that goes on gets past a block that fails exactly if it gets past the blocks after it
from the same ledger. -/
theorem renderAll_cons_eq_ok_of_error {harvest : Harvest} {final : Ledger}
    (policy : o.errorPolicy = .comment) (h : b.renderTop o ledger = (.error error, after)) :
    renderAll o (b :: rest) ledger = (.ok harvest, final) ↔
      ∃ tail, renderAll o rest ledger = (.ok tail, final) ∧ harvest = tail.addError error := by
  rw [renderAll_cons_of_error policy h, Pass.andThen_eq_ok]
  constructor
  · rintro ⟨tail, last, hrest, hpure⟩
    obtain ⟨hharvest, rfl⟩ := Prod.mk.inj hpure
    exact ⟨tail, hrest, (Except.ok.inj hharvest).symm⟩
  · rintro ⟨tail, hrest, rfl⟩
    exact ⟨tail, final, hrest, rfl⟩

/-- A block that does not fail passes its ledger on. -/
theorem renderAll_cons_snd_of_ok (h : b.renderTop o ledger = (.ok line, after)) :
    (renderAll o (b :: rest) ledger).2 = (renderAll o rest after).2 := by
  rw [renderAll_cons_of_ok h]
  exact Pass.andThen_snd (fun _ _ => rfl) after

/-- A block that fails passes the ledger on as it was before. -/
theorem renderAll_cons_snd_of_error (policy : o.errorPolicy = .comment)
    (h : b.renderTop o ledger = (.error error, after)) :
    (renderAll o (b :: rest) ledger).2 = (renderAll o rest ledger).2 := by
  rw [renderAll_cons_of_error policy h]
  exact Pass.andThen_snd (fun _ _ => rfl) ledger

end Outcomes

variable (o : Options)

/-- Every block has its outcome, in order. -/
theorem map_fst_outcomes (blocks : List Block) (ledger : Ledger) :
    (outcomes o blocks ledger).map Prod.fst = blocks := by
  induction blocks generalizing ledger with
  | nil => rfl
  | cons b rest ih =>
      rcases h : b.renderTop o ledger with ⟨_ | line, after⟩
      · rw [outcomes_cons_of_error h, List.map_cons, ih]
      · rw [outcomes_cons_of_ok h, List.map_cons, ih]

/-- The blocks that do not fail run through without an error, and leave the lines they left among
the others. -/
theorem renderAll_survivors (blocks : List Block) (ledger : Ledger) :
    (renderAll o (survivors (outcomes o blocks ledger)) ledger).1 =
      .ok ⟨(successes (outcomes o blocks ledger)).flatMap fun out => out.2.lines, []⟩ := by
  induction blocks generalizing ledger with
  | nil => rfl
  | cons b rest ih =>
      rcases h : b.renderTop o ledger with ⟨error | line, after⟩
      · rw [outcomes_cons_of_error h, survivors_cons_error, successes_cons_error]
        exact ih ledger
      · have run := ih after
        rw [outcomes_cons_of_ok h, survivors_cons_ok, successes_cons_ok, renderAll_cons_of_ok h]
        rw [Pass.andThen_of_ok (Prod.ext run rfl)]
        simp [Pass.pure, Harvest.addLine, Outcome.lines]

variable {o}

/-- The lines and the errors of a pass are those of the outcomes. -/
theorem renderAll_fst (policy : o.errorPolicy = .comment) (blocks : List Block)
    (ledger : Ledger) :
    (renderAll o blocks ledger).1 =
      .ok ⟨(outcomes o blocks ledger).flatMap fun out => out.2.lines,
        (outcomes o blocks ledger).filterMap fun out => out.2.error?⟩ := by
  induction blocks generalizing ledger with
  | nil => rfl
  | cons b rest ih =>
      rcases h : b.renderTop o ledger with ⟨error | line, after⟩
      · have run := ih ledger
        rw [outcomes_cons_of_error h, renderAll_cons_of_error policy h]
        rw [Pass.andThen_of_ok (Prod.ext run rfl)]
        simp [Pass.pure, Harvest.addError, Outcome.lines, Outcome.error?]
      · have run := ih after
        rw [outcomes_cons_of_ok h, renderAll_cons_of_ok h]
        rw [Pass.andThen_of_ok (Prod.ext run rfl)]
        simp [Pass.pure, Harvest.addLine, Outcome.lines, Outcome.error?]

/-- A pass leaves the ledger that the pass over the blocks that do not fail leaves. -/
theorem renderAll_snd (policy : o.errorPolicy = .comment) (blocks : List Block)
    (ledger : Ledger) :
    (renderAll o blocks ledger).2 =
      (renderAll o (survivors (outcomes o blocks ledger)) ledger).2 := by
  induction blocks generalizing ledger with
  | nil => rfl
  | cons b rest ih =>
      rcases h : b.renderTop o ledger with ⟨error | line, after⟩
      · rw [outcomes_cons_of_error h, survivors_cons_error, renderAll_cons_snd_of_error policy h]
        exact ih ledger
      · rw [outcomes_cons_of_ok h, survivors_cons_ok, renderAll_cons_snd_of_ok h,
          renderAll_cons_snd_of_ok h]
        exact ih after

/-- The outcome of a block is what its rendering gives after the pass over the blocks before it
that do not fail; the pass over all blocks before it leads to the same ledger. -/
theorem outcome_eq (policy : o.errorPolicy = .comment) {blocks : List Block} {ledger : Ledger}
    {before after : List (Block × Outcome)} {b : Block} {out : Outcome}
    (h : outcomes o blocks ledger = before ++ (b, out) :: after) :
    (renderAll o (before.map Prod.fst) ledger).2 = (renderAll o (survivors before) ledger).2 ∧
      (b.renderTop o (renderAll o (survivors before) ledger).2).1 = out := by
  induction before generalizing blocks ledger with
  | nil =>
      refine ⟨rfl, ?_⟩
      change (b.renderTop o ledger).1 = out
      cases blocks with
      | nil => simp [outcomes] at h
      | cons c rest =>
          rcases hc : c.renderTop o ledger with ⟨error | line, next⟩
          · rw [outcomes_cons_of_error hc, List.nil_append] at h
            obtain ⟨rfl, rfl⟩ := Prod.mk.inj (List.cons.inj h).1
            rw [hc]
          · rw [outcomes_cons_of_ok hc, List.nil_append] at h
            obtain ⟨rfl, rfl⟩ := Prod.mk.inj (List.cons.inj h).1
            rw [hc]
  | cons first before ih =>
      cases blocks with
      | nil => simp [outcomes] at h
      | cons c rest =>
          rcases hc : c.renderTop o ledger with ⟨error | line, next⟩
          · rw [outcomes_cons_of_error hc, List.cons_append] at h
            obtain ⟨rfl, htail⟩ := List.cons.inj h
            rw [List.map_cons, survivors_cons_error, renderAll_cons_snd_of_error policy hc]
            exact ih htail
          · rw [outcomes_cons_of_ok hc, List.cons_append] at h
            obtain ⟨rfl, htail⟩ := List.cons.inj h
            rw [List.map_cons, survivors_cons_ok, renderAll_cons_snd_of_ok hc,
              renderAll_cons_snd_of_ok hc]
            exact ih htail

/-- Where errors become comments, a pass gives a program. Its imports, its definitions and its
ledger are those of the run over the blocks that do not fail; its body has the lines of that run,
with the comment of each failing block at its place. -/
theorem generate_recovers (g : Generator) (w : Workspace)
    (policy : g.options.errorPolicy = .comment) :
    let start := Ledger.declareNames {} w.walk
    let outs := outcomes g.options w.orderedBlocks start
    let run := renderAll g.options (survivors outs) start
    outs.map Prod.fst = w.orderedBlocks ∧
      (∀ before b out after, outs = before ++ (b, out) :: after →
        (renderAll g.options (before.map Prod.fst) start).2 =
            (renderAll g.options (survivors before) start).2 ∧
          (b.renderTop g.options (renderAll g.options (survivors before) start).2).1 = out) ∧
      run.1 = .ok ⟨(successes outs).flatMap fun out => out.2.lines, []⟩ ∧
      g.generate w =
        (.ok
          { imports := run.2.definitions.imports
            definitions := run.2.definitions.definitions
            body := "\n".intercalate (outs.flatMap fun out => out.2.lines)
            errors := outs.filterMap fun out => out.2.error? },
          { g with ledger := run.2 }) := by
  intro start outs run
  refine ⟨map_fst_outcomes _ _ _, ?_, renderAll_survivors _ _ _, ?_⟩
  · intro before b out after h
    exact outcome_eq policy h
  · have pass : renderAll g.options w.orderedBlocks start =
        (.ok ⟨outs.flatMap fun out => out.2.lines, outs.filterMap fun out => out.2.error?⟩,
          run.2) :=
      Prod.ext (renderAll_fst policy _ _) (renderAll_snd policy _ _)
    simp only [Generator.generate, Ledger.reset_eq]
    rw [pass]
    rfl

/-- A block that fails after it has asked for a helper, and one that does not fail. -/
def halfFailing : Workspace where
  blocks :=
    [{ node := { id := "a", kindName := "math_arithmetic", fields := [("OP", "ADD")] }
       values :=
         [("A", { node := { id := "p", kindName := "math_number_property",
                            fields := [("PROPERTY", "PRIME")] }
                  values := [("NUMBER_TO_CHECK",
                    { node := { id := "v", kindName := "variables_get",
                                fields := [("VAR", "xs")] } })] }),
          ("B", { node := { id := "m", kindName := "mystery" } })] },
     { node := { id := "t", kindName := "text_print" }
       values := [("TEXT",
         { node := { id := "u", kindName := "variables_get", fields := [("VAR", "xs")] } })] }]

theorem generate_recovers_halfFailing :
    let g : Generator := { options := { errorPolicy := .comment } }
    g.options.errorPolicy = .comment ∧
      (g.generate halfFailing).1 =
        .ok
          { definitions := [("variables", "var xs;")]
            body := "// error: no code generator for block type 'mystery' (block m)\n\n" ++
              "print(xs);\n"
            errors := [.unknownKind "m" "mystery"] } := by
  intro g
  obtain ⟨_, _, _, program⟩ := generate_recovers g halfFailing rfl
  refine ⟨rfl, ?_⟩
  rw [program]
  rfl

end BlockScript
