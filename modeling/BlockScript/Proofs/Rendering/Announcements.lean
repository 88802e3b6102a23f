import BlockScript.Proofs.Rendering.Pieces

/-! # Statements are announced

Where a statement prefix is set, it stands in front of every statement, under the id of the
statement's own block: between the comments of the block and its code. A condition places the prefix
itself, with the same result. The block that leaves a procedure on a condition is one of the kinds
that place the templates themselves, but it places the suffix only, so that nothing announces it. -/

namespace BlockScript

open Template Text

namespace Block

/-- The text of a block in a chain, where a statement prefix is set. -/
inductive IsTold (o : Options) (template : String) (b : Block) : String → Prop
  /-- The prefix stands in front of the code of the block. -/
  | announced {kind : Kind} {ledger mid : Ledger} {body : String}
      (known : Kind.ofTypeName? b.node.kindName = some kind)
      (usual : kind.suppressesTemplates = false)
      (run : b.own o kind ledger = (.ok (.statement body), mid)) :
      IsTold o template b (remarkLines kind b.node b.values ++ injectId template b.node.id ++
        (body ++ (o.suffixFor b.node.id).getD ""))
  /-- The code of a condition starts with the prefix. -/
  | announcesItself {kind : Kind} {ledger mid : Ledger} {code : String}
      (known : Kind.ofTypeName? b.node.kindName = some kind)
      (condition : kind = .controlsIf ∨ kind = .controlsIfElse)
      (run : b.own o kind ledger = (.ok (.statement (injectId template b.node.id ++ code)), mid))
      (starts : "if (".toList <+: code.toList) :
      IsTold o template b
        (remarkLines kind b.node b.values ++ injectId template b.node.id ++ code)
  /-- Nothing stands in front of the code that leaves a procedure. -/
  | silent {ledger mid : Ledger} {code : String}
      (known : Kind.ofTypeName? b.node.kindName = some .proceduresIfReturn)
      (run : b.own o .proceduresIfReturn ledger = (.ok (.statement code), mid))
      (starts : "if (".toList <+: code.toList) :
      IsTold o template b (remarkLines .proceduresIfReturn b.node b.values ++ code)

section Prefix
variable {o : Options} {template : String} (set : o.statementPrefix = some template)
  (nonempty : template ≠ "")
include set nonempty

theorem prefixFor_eq (id : String) : o.prefixFor id = some (injectId template id) := by
  simp [Options.prefixFor, Options.instantiate, set, nonempty]

variable {b : Block} {place : Place} {alone : Bool} {ledger after : Ledger} {code piece : String}

theorem IsPiece.isTold (h : b.IsPiece o place piece) (outside : place ≠ .value) :
    b.IsTold o template piece := by
  cases h with
  | @mk kind _ _ body known run =>
      have remarks : remarksAt place (remarkLines kind b.node b.values) =
          remarkLines kind b.node b.values := by
        cases place with
        | value => exact absurd rfl outside
        | top | statement => rfl
      have announcement := prefixFor_eq set nonempty b.node.id
      rw [remarks]
      by_cases usual : kind.suppressesTemplates = false
      · have told : b.IsTold o template _ := .announced known usual run
        simpa [withTemplates, usual, announcement, String.append_assoc] using told
      · have bare : withTemplates o kind b.node body = body := by simp [withTemplates, usual]
        have leaves := own_leaves run
        rw [bare]
        cases kind with
        | controlsIf | controlsIfElse =>
            obtain ⟨code, rfl, starts, -⟩ := leaves.exists_eq
            rw [announcement, Option.getD_some] at run ⊢
            rw [← String.append_assoc]
            exact .announcesItself known (by simp) run starts
        | proceduresIfReturn =>
            obtain ⟨code, rfl, starts, -⟩ := leaves.exists_eq
            rw [String.empty_append] at run ⊢
            exact .silent known run starts
        | _ => exact absurd rfl usual

end Prefix

section Announced
variable {o : Options} {template : String} {b : Block} {place : Place} {alone : Bool}
  {ledger after : Ledger} {code piece : String} {kind : Kind}

/-- The text of a block is announced unless the block leaves a procedure. -/
theorem IsTold.exists_eq (h : b.IsTold o template piece)
    (known : Kind.ofTypeName? b.node.kindName = some kind) (other : kind ≠ .proceduresIfReturn) :
    ∃ rest, piece = remarkLines kind b.node b.values ++ injectId template b.node.id ++ rest := by
  cases h with
  | announced known' =>
      obtain rfl := Option.some.inj (known.symm.trans known')
      exact ⟨_, rfl⟩
  | announcesItself known' =>
      obtain rfl := Option.some.inj (known.symm.trans known')
      exact ⟨_, rfl⟩
  | silent known' => exact absurd (Option.some.inj (known.symm.trans known')) other

/-- The code of an enabled block starts with the text of the block itself. -/
theorem contributors_of_statement (on : b.node.disabled = false)
    (known : Kind.ofTypeName? b.node.kindName = some kind)
    (h : b.render o place alone ledger = (.ok (.statement code), after)) :
    b.contributors alone = b :: nextContributors alone b.next := by
  refine contributors_of_ordinary known on (eq_false_of_ne_true fun definition => ?_)
  obtain ⟨own, mid, events, runs, around, -⟩ := runs_script on known h
  obtain rfl := (Kind.eq_nothing_iff runs.run).mpr definition
  exact Emitted.noConfusion (Pass.pure_eq_ok.mp around).1

end Announced

/-- Where a statement prefix is set, the code of a statement outside of values is made of the texts
of its blocks in order, and each of them has the prefix, under the id of its own block, between its
comments and its code, except that nothing announces the block that leaves a procedure. -/
theorem render_announces {o : Options} {template : String}
    (set : o.statementPrefix = some template) (nonempty : template ≠ "") {b : Block} {place : Place}
    (outside : place ≠ .value) {alone : Bool} {ledger after : Ledger} {code : String}
    (h : b.render o place alone ledger = (.ok (.statement code), after)) :
    IsJoined (IsTold o template) (b.contributors alone) code ∧
      ∀ kind, b.node.disabled = false → Kind.ofTypeName? b.node.kindName = some kind →
        kind ≠ .proceduresIfReturn → ∃ rest, code =
          remarkLines kind b.node b.values ++ injectId template b.node.id ++ rest := by
  have joined : IsJoined (IsTold o template) (b.contributors alone) code := by
    refine (isJoined_render h).mono fun c piece hpiece => ?_
    exact hpiece.elim (·.isTold set nonempty outside) (·.isTold set nonempty (by decide))
  refine ⟨joined, fun kind on known other => ?_⟩
  rw [contributors_of_statement on known h] at joined
  obtain ⟨pieces, rfl, first⟩ := joined
  obtain ⟨piece, more, told, -, rfl⟩ := List.forall₂_cons_left_iff.mp first
  obtain ⟨rest, rfl⟩ := told.exists_eq known other
  exact ⟨rest ++ String.join more, by rw [String.join_cons, String.append_assoc]⟩

/-- The options where every statement is announced by a trace. -/
def traced : Options where
  statementPrefix := some "trace(%1);\n"

/-- A block that prints. -/
def tracedPrint : Block where
  node := { id := "p", kindName := "text_print" }

theorem render_announces_tracedPrint :
    traced.statementPrefix = some "trace(%1);\n" ∧
      ∃ code after, tracedPrint.render traced .top false {} = (.ok (.statement code), after) ∧
        IsJoined (IsTold traced "trace(%1);\n") (tracedPrint.contributors false) code ∧
        ∃ rest, code = remarkLines .textPrint tracedPrint.node tracedPrint.values ++
          injectId "trace(%1);\n" "p" ++ rest := by
  have set : traced.statementPrefix = some "trace(%1);\n" := rfl
  have run : tracedPrint.render traced .top false {} =
      (.ok (.statement "trace('p');\nprint('');\n"), {}) := by
    decide +kernel
  obtain ⟨joined, announced⟩ := render_announces set (by decide) (by decide) run
  exact ⟨set, _, _, run, joined, announced .textPrint rfl (by decide +kernel) (by decide)⟩

/-- A block that leaves a procedure. -/
def leavingBlock : Block where
  node := { id := "r", kindName := "procedures_ifreturn" }

/-- Nothing announces the block that leaves a procedure. -/
theorem render_silent :
    leavingBlock.node.disabled = false ∧
      (leavingBlock.render traced .top false {}).1 =
        .ok (.statement "if (false) \x7b\n  return;\n\x7d\n") ∧
      ∀ rest, "if (false) \x7b\n  return;\n\x7d\n" ≠
        remarkLines .proceduresIfReturn leavingBlock.node leavingBlock.values ++
          injectId "trace(%1);\n" "r" ++ rest := by
  have announcement : remarkLines .proceduresIfReturn leavingBlock.node leavingBlock.values ++
      injectId "trace(%1);\n" "r" = "trace('r');\n" := by
    decide +kernel
  refine ⟨rfl, by decide +kernel, fun rest same => ?_⟩
  rw [announcement] at same
  simpa using congrArg (fun text => text.toList.head?) same

end Block

end BlockScript
