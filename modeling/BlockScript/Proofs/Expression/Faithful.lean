import BlockScript.Proofs.Expression.Templates
import BlockScript.Proofs.Generator.Naming
import BlockScript.Proofs.Rendering.Named

/-! # Expressions are read as they are meant

The code of a tree of arithmetic and logic blocks is parsed as the expression that the tree denotes,
whatever was generated before and whatever place the code goes to. Only nested connectives may come
back grouped in another way. -/

namespace BlockScript

namespace Block
variable {o : Options} {names : String → String}

/-- What a rendering is to give where a block denotes an expression, or none. -/
def Means (names : String → String) (e : Option Expression) (emitted : Emitted) (es : List Event) :
    Prop :=
  match e with
  | none => emitted = .nothing
  | some e => Denotes names e emitted es

/-- The replies to a block denote what is plugged into it. -/
theorem hold_ofArguments {values statements : List (String × Block)}
    (ih : ∀ input ∈ values, (input.2.render o .value true).Gives (input.2.events o true) False
      (Means names (input.2.meaning names))) (remarks : String) :
    (Replies.ofArguments names (argument names values)).Hold o
      ⟨remarks, renderValues o values, renderStatements o statements⟩
      ⟨inputEvents o true values, inputEvents o false statements⟩ where
  value input level := by
    apply gives_valueIn
    · intro missing named
      rw [argument, missing]
      exact True.intro
    · intro child hc
      have denoted : argument names values input = child.meaning names := by
        rw [argument, hc, Option.bind_some]
      refine (ih _ (Table.mem_of_get? hc)).mono fun emitted es means => ?_
      cases he : child.meaning names with
      | none =>
          rw [he] at means denoted
          obtain rfl := means
          intro named
          rw [denoted]
          exact True.intro
      | some e =>
          rw [he] at means denoted
          obtain ⟨code, inner, rfl, stands⟩ := means
          intro named
          obtain ⟨read, spells, same⟩ := stands named
          rw [denoted, if_neg spells.ne_empty]
          exact Stands.wrap ⟨read, spells, same⟩ level
  body fails := fails.elim
  plugged _ := True.intro

/-- A tree of arithmetic and logic gives the expression that it denotes. -/
theorem gives_meaning (o : Options) (names : String → String) (b : Block)
    (tree : b.isExpression = true) :
    (b.render o .value true).Gives (b.events o true) False (Means names (b.meaning names)) := by
  induction b with
  | mk node values statements next ihv _ _ =>
      rw [isExpression_eq] at tree
      rw [meaning_eq]
      by_cases off : node.disabled = true
      · rw [if_pos off, render_eq, events_eq]
        intro ledger
        simp [renderNode, skipDisabled, off, Pass.pure, Means]
      · have on : node.disabled = false := by simpa using off
        simp only [on, Bool.false_or, Bool.and_eq_true, inputsAreExpressions_iff] at tree
        obtain ⟨form, hf⟩ := Option.isSome_iff_exists.mp tree.1
        obtain ⟨kind, known, hk⟩ := Option.bind_eq_some_iff.mp hf
        rw [if_neg off, hf]
        refine gives_render on known
          (hold_ofArguments fun input hi => ihv input hi (tree.2 input hi))
          (Kind.ensures_form hk o) ?_
        rintro remarks emitted es ⟨code, level, rfl, stands⟩
        refine Pass.Gives.pure ?_
        refine ⟨code, level, ?_, ?_⟩
        · simp [remarksAt]
        · simpa using stands

end Block

theorem Named.of_coherent {events : List Event} {ledger : Ledger}
    (coherent : Ledger.Coherent events ledger) :
    Named (ledger.names.answer .variableName) events := by
  intro raw given h
  have known := coherent.named h
  refine ⟨?_, coherent.spelled (.entry known), coherent.unreserved (.entry known)⟩
  rw [Names.answer, known, Option.getD_some]

/-- Whatever was generated before, a tree of arithmetic and logic gives code that is parsed, to
its end, as the expression that the tree denotes; in a place of any level it is parsed as that
expression too, which fits the place. Nested connectives may be grouped in another way. -/
theorem Block.render_parses {o : Options} {ledger : Ledger}
    (reachable : Ledger.Reachable o.indent ledger) {b : Block} (tree : b.isExpression = true) :
    ∃ emitted after, b.render o .value true ledger = (.ok emitted, after) ∧
      match b.meaning (after.names.answer .variableName) with
      | none => emitted = .nothing
      | some e => ∃ code level read, emitted = .value code level ∧ read.Reassociates e ∧
          parse (lex code.toList) = some read ∧
          ∀ required, ∃ text, valueCode b.node required emitted = .pure (some text) ∧
            text = Precedence.wrap code level required ∧
            Derives required (lex text.toList) read ∧ parse (lex text.toList) = some read := by
  have coherent : Ledger.Coherent (b.events o true ledger) (b.render o .value true ledger).2 :=
    reachable.coherent.steps (b.steps_render o .value true ledger)
  have gives := gives_meaning o ((b.render o .value true ledger).2.names.answer .variableName) b
    tree ledger
  rcases hr : b.render o .value true ledger with ⟨error | emitted, after⟩ <;>
    rw [hr] at gives coherent
  · exact gives.elim
  · refine ⟨emitted, after, rfl, ?_⟩
    cases he : b.meaning (after.names.answer .variableName) with
    | none =>
        rw [he] at gives
        exact gives
    | some e =>
        rw [he] at gives
        obtain ⟨code, level, rfl, stands⟩ := gives
        obtain ⟨read, spells, same⟩ := stands (.of_coherent coherent)
        refine ⟨code, level, read, rfl, same, spells.parse_eq, fun required => ?_⟩
        have wrapped := spells.wrap required
        refine ⟨_, ?_, rfl, wrapped.derives, wrapped.parse_eq⟩
        rw [valueCode, if_neg spells.ne_empty]

/-- Both `a` and what both `b` and a comparison say; the second operand of that is missing. -/
def nestedConditions : Block :=
  let get (raw : String) : Block :=
    { node := { id := raw, kindName := "variables_get", fields := [("VAR", raw)] } }
  let number : Block :=
    { node := { id := "n", kindName := "math_number", fields := [("NUM", "-1.5")] } }
  let negated : Block :=
    { node := { id := "m", kindName := "math_single", fields := [("OP", "NEG")] }
      values := [("NUM", number)] }
  let smaller : Block :=
    { node := { id := "c", kindName := "logic_compare", fields := [("OP", "LT")] }
      values := [("A", negated)] }
  let both (id : String) (left right : Block) : Block :=
    { node := { id, kindName := "logic_operation", fields := [("OP", "AND")] }
      values := [("A", left), ("B", right)] }
  both "o" (get "a") (both "i" (get "b") smaller)

theorem nestedConditions_parses :
    Ledger.Reachable "  " {} ∧ nestedConditions.isExpression = true ∧
      ∃ emitted after, nestedConditions.render {} .value true {} = (.ok emitted, after) ∧
        match nestedConditions.meaning (after.names.answer .variableName) with
        | none => emitted = .nothing
        | some e => ∃ code level read, emitted = .value code level ∧ read.Reassociates e ∧
            parse (lex code.toList) = some read ∧
            ∀ required, ∃ text,
              valueCode nestedConditions.node required emitted = .pure (some text) ∧
              text = Precedence.wrap code level required ∧
              Derives required (lex text.toList) read ∧ parse (lex text.toList) = some read :=
  have reachable : Ledger.Reachable "  " {} := ⟨[], .refl {}⟩
  have tree : nestedConditions.isExpression = true := by decide +kernel
  ⟨reachable, tree, Block.render_parses (o := {}) reachable tree⟩

end BlockScript
