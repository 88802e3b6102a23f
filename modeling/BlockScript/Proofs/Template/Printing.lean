import BlockScript.Proofs.Template.Bodies
import BlockScript.Proofs.Text.Shift

/-! # Texts that are printed

A literal that a statement prints is part of the code of the statement, and is indented together
with it: once for each statement input around it, up to the body or a definition. -/

namespace BlockScript
open Template (definitionKey isQualified handlerName handlerHead)

/-- Where the code of a statement ends up. -/
inductive Site where
  | body
  | definition
deriving DecidableEq, Repr

/-- The handler of a widget is not a function of a module, whatever its kind. -/
def Node.ServesHere (names : Names) (n : Node) : Prop :=
  ∀ given result, names.lookup .procedureName (n.fieldText "NAME") = some given →
    isQualified (handlerName given (handlerHead given result).1) = false

/-- Does the statement input of a block hold code that is part of the program? -/
def Kind.Keeps (kind : Kind) (n : Node) (input : String) : Prop :=
  kind.Encloses n input ∨ kind.isProcedureDefinition = true ∧ input = "STACK"

/-- Some statement in the chain of a block, or in the statement inputs of the chain at any depth,
prints a literal that denotes `s`. The depth counts the inputs around it, from where its code ends
up. -/
inductive Prints (names : Names) (s : String) : Site → Nat → Block → Prop
  | print {b text : Block} (on : b.node.disabled = false)
      (known : Kind.ofTypeName? b.node.kindName = some .textPrint)
      (plugged : b.value? "TEXT" = some text) (textOn : text.node.disabled = false)
      (textKnown : Kind.ofTypeName? text.node.kindName = some .text)
      (shows : text.node.fieldText "TEXT" = s) : Prints names s .body 0 b
  | skipped {b next : Block} {site : Site} {depth : Nat} (off : b.node.disabled = true)
      (follows : b.next = some next) (h : Prints names s site depth next) :
      Prints names s site depth b
  | later {b next : Block} {kind : Kind} {site : Site} {depth : Nat}
      (on : b.node.disabled = false) (known : Kind.ofTypeName? b.node.kindName = some kind)
      (leaves : kind.leavesStatement b.node = true) (follows : b.next = some next)
      (h : Prints names s site depth next) : Prints names s site depth b
  | enclosed {b first : Block} {kind : Kind} {input : String} {depth : Nat}
      (on : b.node.disabled = false) (known : Kind.ofTypeName? b.node.kindName = some kind)
      (encloses : kind.Encloses b.node input) (filled : b.statement? input = some first)
      (h : Prints names s .body depth first) : Prints names s .body (depth + 1) b
  | defined {b first : Block} {kind : Kind} {depth : Nat}
      (on : b.node.disabled = false) (known : Kind.ofTypeName? b.node.kindName = some kind)
      (defines : kind.isProcedureDefinition = true)
      (served : kind = .widgetsDefReturn ∨ kind = .widgetsDefNoReturn → b.node.ServesHere names)
      (filled : b.statement? "STACK" = some first) (h : Prints names s .body depth first) :
      Prints names s .definition (depth + 1) b
  | within {b first : Block} {kind : Kind} {input : String} {depth : Nat}
      (on : b.node.disabled = false) (known : Kind.ofTypeName? b.node.kindName = some kind)
      (keeps : kind.Keeps b.node input) (filled : b.statement? input = some first)
      (h : Prints names s .definition depth first) : Prints names s .definition depth b

/-- The line that prints a literal, shifted with the lines around it. -/
def printLine (indent : String) (depth : Nat) (s : String) : List Char :=
  ("print(" ++ Text.shiftedQuote indent depth s ++ ");").toList

theorem printLine_succ (indent : String) (depth : Nat) (s : String) :
    printLine indent (depth + 1) s = Text.shift indent.toList (printLine indent depth s) := by
  simp [printLine, Text.shiftedQuote, Function.iterate_succ_apply']

/-- The code of a statement; nothing for anything else. -/
def Emitted.text : Emitted → String
  | .statement code => code
  | _ => ""

/-- Do the answers among some events agree with the names at the end? -/
def Names.Agree (names : Names) (events : List Event) : Prop :=
  ∀ category raw given, .name category raw given ∈ events →
    names.lookup category raw = some given

/-- A line is where it should end up: in some code, or in a definition among its events. -/
def Lands (names : Names) (line : List Char) : Site → String → List Event → Prop
  | .body, code, _ => Text.HoldsLine line code
  | .definition, _, events => names.Agree events →
      ∃ name text, .define (definitionKey name) text ∈ events ∧ Text.HoldsLine line text

section Lands
variable {names : Names} {line : List Char} {site : Site} {code : String}
  {events more : List Event}

/-- More code around it and more events change nothing. -/
theorem Lands.context (h : Lands names line site code events) (before after : String)
    (sub : events ⊆ more) : Lands names line site (before ++ code ++ after) more := by
  cases site with
  | body => exact Text.HoldsLine.append h before after
  | definition =>
      intro agree
      obtain ⟨name, text, hdef, hline⟩ := h fun _ _ _ hm => agree _ _ _ (sub hm)
      exact ⟨name, text, sub hdef, hline⟩

/-- In a definition it matters not what code stands at the place of the block. -/
theorem Lands.definition_of {other : String} (h : Lands names line .definition code events)
    (sub : events ⊆ more) : Lands names line .definition other more := by
  intro agree
  obtain ⟨name, text, hdef, hline⟩ := h fun _ _ _ hm => agree _ _ _ (sub hm)
  exact ⟨name, text, sub hdef, hline⟩

/-- What lands in a block's own code lands in the chain that the block starts. -/
theorem Lands.of_render {o : Options} {b : Block}
    (h : (b.render o .statement false).Gives (b.events o false) True fun emitted es =>
      Lands names line site emitted.text es) :
    (Block.renderChain o b).Gives (b.events o false) True (Lands names line site) := by
  refine Block.gives_renderChain (h.mono fun emitted es hl => ?_)
  cases emitted with
  | value code level => exact trivial
  | statement code => exact hl
  | nothing => exact hl

end Lands

section Definitions
-- The test of a name for a double colon would be computed on a name that is not known.
attribute [local irreducible] Template.isQualified

variable {B : String → List Event → Prop} {kind : Kind}

/-- The chain of a definition is rendered, and defined unless a module serves the widget. -/
theorem Kind.ensures_defined (defines : kind.isProcedureDefinition = true) (o : Options)
    (n : Node) :
    (kind.script o n).Ensures (.ofBody "STACK" B) fun _ es =>
      (∃ code own, B code own ∧ own ⊆ es) ∧
        ∀ names : Names, names.Agree es →
          (kind = .widgetsDefReturn ∨ kind = .widgetsDefNoReturn → n.ServesHere names) →
            ∃ name text, .define (definitionKey name) text ∈ es ∧ Within B text es := by
  cases kind with
  | proceduresDefReturn | proceduresDefNoReturn =>
      dsimp only [script]
      refine (Template.ensures_proceduresDefine o n).mono fun _ es h => ?_
      exact ⟨h.1, fun _ _ _ => h.2⟩
  | widgetsDefReturn | widgetsDefNoReturn =>
      dsimp only [script]
      refine (Template.ensures_widgetsDefine o n).mono fun _ es h => ?_
      obtain ⟨own, given, result, hname, hdef⟩ := h
      refine ⟨own, fun names agree served => hdef ?_⟩
      exact served (by simp) given result (agree _ _ _ hname)
  | _ => simp [isProcedureDefinition] at defines

/-- The events of a chain that a block keeps are among the events of the block. -/
theorem Kind.Keeps.ensures {n : Node} {input : String} (h : kind.Keeps n input) (o : Options) :
    (kind.script o n).Ensures (.ofBody input B) fun _ es => ∃ code own, B code own ∧ own ⊆ es := by
  rcases h with encloses | ⟨defines, rfl⟩
  · refine (encloses.ensures o).mono fun _ es h => ?_
    obtain ⟨text, -, code, own, before, after, hb, hsub, -⟩ := h
    exact ⟨code, own, hb, hsub⟩
  · exact (Kind.ensures_defined defines o n).mono fun _ es h => h.1

end Definitions

section Prints
variable {names : Names} {s : String}

/-- The replies where the message to print is known. -/
def Replies.ofMessage (message : String) : Replies where
  value := fun input level code _ => input = "TEXT" → level = .anything → code = some message
  body := fun _ _ _ => True
  plugged := fun _ _ => True
  mayFail := True

/-- The replies of which nothing is known. -/
def Replies.any : Replies := ⟨fun _ _ _ _ => True, fun _ _ _ => True, fun _ _ => True, True⟩

theorem Replies.any_hold (o : Options) (surroundings : Surroundings) (records : Records) :
    Replies.any.Hold o surroundings records :=
  ⟨fun _ _ => Pass.Gives.trivial trivial _ _, fun _ _ => Pass.Gives.trivial trivial _ _,
    fun _ => trivial⟩

/-- The literal of a text block is the code in the input that it fills. -/
theorem gives_quote {o : Options} {text : Block} (on : text.node.disabled = false)
    (known : Kind.ofTypeName? text.node.kindName = some .text) :
    (text.render o .value true).Gives (text.events o true) True fun emitted _ =>
      emitted = .value (Text.quote (text.node.fieldText "TEXT")) .atomic := by
  refine Block.gives_render on known (fun _ => Replies.any_hold o _ _) (P := fun emitted _ =>
    emitted = .value (Text.quote (text.node.fieldText "TEXT")) .atomic) rfl ?_
  rintro remarks emitted es rfl
  exact Pass.Gives.pure (by simp [remarksAt])

theorem quote_ne_empty (text : String) : Text.quote text ≠ "" := by
  intro h
  have hl := congrArg String.toList h
  simp at hl

/-- A statement that prints a text holds the literal of the text. -/
theorem gives_print {o : Options} {b text : Block} (on : b.node.disabled = false)
    (known : Kind.ofTypeName? b.node.kindName = some .textPrint)
    (plugged : b.value? "TEXT" = some text) (textOn : text.node.disabled = false)
    (textKnown : Kind.ofTypeName? text.node.kindName = some .text)
    (place : Place) :
    (b.render o place false).Gives (b.events o false) True fun emitted _ =>
      Text.HoldsLine (printLine o.indent 0 (text.node.fieldText "TEXT")) emitted.text := by
  refine Block.gives_render (r := .ofMessage (Text.quote (text.node.fieldText "TEXT"))) on known ?_
    (P := fun emitted _ => emitted =
      .statement ("print(" ++ Text.quote (text.node.fieldText "TEXT") ++ ");\n")) ?_ ?_
  · intro remarks
    refine ⟨fun input level => ?_, fun _ _ => Pass.Gives.trivial trivial _ _, fun _ => trivial⟩
    refine Block.gives_valueIn ?_ ?_
    · rintro missing rfl -
      exact absurd (missing.symm.trans plugged) (by simp)
    · intro child found
      by_cases same : input = "TEXT"
      · subst same
        obtain rfl := Option.some.inj (plugged.symm.trans found)
        refine (gives_quote textOn textKnown).mono ?_
        rintro emitted es rfl - rfl
        rw [if_neg (quote_ne_empty _), Precedence.wrap_anything]
      · refine (Pass.Gives.trivial trivial _ _).mono fun emitted es _ => ?_
        cases emitted with
        | value code inner => exact fun h => absurd h same
        | statement code => exact trivial
        | nothing => exact fun h => absurd h same
  · refine fun code es reply => ?_
    obtain rfl := reply rfl rfl
    rfl
  · rintro remarks emitted es rfl
    refine (Block.gives_surround_statement .textPrint b.node remarks place _
      (Pass.Gives.trivial trivial _ _)).mono ?_
    rintro whole more ⟨before, after, last, rfl, -⟩
    have line : Text.HoldsLine (printLine o.indent 0 (text.node.fieldText "TEXT"))
        ("print(" ++ Text.quote (text.node.fieldText "TEXT") ++ ");\n") := by
      refine ⟨[], [], ?_⟩
      simp [printLine, Text.shiftedQuote]
    exact line.append before (after ++ last)

theorem holdsLine_succ {o : Options} {depth : Nat} {code : String}
    (h : Text.HoldsLine (printLine o.indent depth s) code) :
    Text.HoldsLine (printLine o.indent (depth + 1) s) (Text.prefixLines code o.indent) := by
  rw [printLine_succ]
  exact h.prefixLines o.indent

/-- The line that prints a literal lands where it should, wherever the block stands. -/
theorem Prints.gives {o : Options} {site : Site} {depth : Nat} {b : Block}
    (h : Prints names s site depth b) (place : Place) :
    (b.render o place false).Gives (b.events o false) True fun emitted es =>
      Lands names (printLine o.indent depth s) site emitted.text es := by
  induction h generalizing place with
  | print on known plugged textOn textKnown shows =>
      subst shows
      exact gives_print on known plugged textOn textKnown place
  | skipped off follows h ih =>
      have chain := Lands.of_render (ih .statement)
      refine (Block.gives_render_disabled off follows chain).mono ?_
      rintro emitted es ⟨code, rfl, lands⟩
      exact lands
  | @later b next kind site depth on known leaves follows h ih =>
      have chain : (followingCode false (Block.renderNext o (some next))).Gives
          (followingEvents false (Block.nextEvents o (some next))) True
          (Lands names (printLine o.indent depth s) site) :=
        Lands.of_render (ih .statement)
      refine Block.gives_render on known (fun _ => Replies.any_hold o _ _)
        (Kind.leaves trivial leaves o) ?_
      rintro remarks emitted es ⟨text, rfl⟩
      rw [follows]
      refine (Block.gives_surround_statement _ _ remarks place text chain).mono ?_
      rintro whole more ⟨before, after, last, rfl, lands⟩
      have placed := lands.context (before ++ text ++ after) "" (List.subset_append_right es more)
      simpa [Emitted.text, String.append_assoc] using placed
  | @enclosed b first kind input depth on known encloses filled h ih =>
      have chain := Lands.of_render (ih .statement)
      refine Block.gives_render on known
        (Replies.ofBody_hold (B := fun code _ =>
          Text.HoldsLine (printLine o.indent (depth + 1) s) code) filled
          (chain.mono fun _ _ line => holdsLine_succ line))
        (encloses.ensures o) ?_
      rintro remarks emitted es ⟨text, rfl, code, own, first, last, line, -, rfl⟩
      refine (Block.gives_surround_statement _ _ remarks place _
        (Pass.Gives.trivial trivial _ _)).mono ?_
      rintro whole more ⟨before, after, following, rfl, -⟩
      exact (Text.HoldsLine.append line first last).append before (after ++ following)
  | @defined b first kind depth on known defines served filled h ih =>
      have chain := Lands.of_render (ih .statement)
      refine Block.gives_render on known
        (Replies.ofBody_hold (B := fun code _ =>
          Text.HoldsLine (printLine o.indent (depth + 1) s) code) filled
          (chain.mono fun _ _ line => holdsLine_succ line))
        (Kind.ensures_defined defines o _) ?_
      rintro remarks emitted es ⟨-, definition⟩
      refine (Pass.Gives.trivial trivial _ _).mono fun whole more _ agree => ?_
      obtain ⟨name, text, hdef, code, own, first, last, line, -, rfl⟩ :=
        definition names (fun _ _ _ hm => agree _ _ _ (List.mem_append_left _ hm)) served
      exact ⟨name, _, List.mem_append_left _ hdef, Text.HoldsLine.append line first last⟩
  | within on known keeps filled h ih =>
      have chain := Lands.of_render (ih .statement)
      refine Block.gives_render on known
        (Replies.ofBody_hold filled (chain.mono fun code _ lands =>
          lands.definition_of (List.Subset.refl _)))
        (keeps.ensures o) ?_
      rintro remarks emitted es ⟨code, own, lands, sub⟩
      refine (Pass.Gives.trivial trivial _ _).mono fun whole more _ => ?_
      exact lands.definition_of (List.Subset.trans sub (List.subset_append_left es more))

end Prints

end BlockScript
