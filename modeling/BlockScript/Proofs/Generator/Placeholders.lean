import BlockScript.Proofs.Generator.Culprits
import BlockScript.Proofs.Generator.Policy
import BlockScript.Proofs.Template.Inputs
import BlockScript.Proofs.Text.Comments

/-! # Comments for errors

Where errors become comments, the message of an error stands behind slashes, and it quotes texts of
the workspace as they are. So a line break in one of them ends the comment, and what follows it
becomes a line of the program. -/

namespace BlockScript

open Text

namespace GenerateError

/-- The texts that the message of an error quotes. -/
def quoted : GenerateError → List String
  | unknownKind id kindName => [kindName, id]
  | unknownOption id kindName field value => [value, field, kindName, id]
  | invalidNumber id value => [value, id]
  | expectedValue id kindName => [kindName, id]
  | expectedStatement id kindName => [kindName, id]

/-- How a message starts. -/
def opening : GenerateError → String
  | unknownKind _ _ => "no code generator for block type '"
  | unknownOption _ _ _ _ => "unknown option '"
  | invalidNumber _ _ => "'"
  | expectedValue _ _ | expectedStatement _ _ => "block '"

/-- The quoted texts of a message, each with the words behind it. -/
def parts : GenerateError → List (String × String)
  | unknownKind id kindName => [(kindName, "' (block "), (id, ")")]
  | unknownOption id kindName field value =>
      [(value, "' for field "), (field, " of '"), (kindName, "' (block "), (id, ")")]
  | invalidNumber id value => [(value, "' is not a number (block "), (id, ")")]
  | expectedValue id kindName =>
      [(kindName, "' (block "), (id, ") is a statement but was plugged into a value input")]
  | expectedStatement id kindName =>
      [(kindName, "' (block "), (id, ") is a value but was plugged into a statement input")]

variable (e : GenerateError)

theorem map_fst_parts : e.parts.map Prod.fst = e.quoted := by
  cases e <;> rfl

theorem toList_message :
    e.message.toList =
      e.opening.toList ++ e.parts.flatMap fun part => part.1.toList ++ part.2.toList := by
  cases e <;>
  · unfold message
    simp only [opening, parts, String.toList_append, List.flatMap_cons, List.flatMap_nil,
      List.append_nil, List.append_assoc]

theorem isWords_of_mem_parts : ∀ part ∈ e.parts, isWords part.2 = true := by
  cases e <;>
    simp only [parts, List.forall_mem_cons, List.not_mem_nil, false_implies, implies_true,
      and_true] <;>
    decide +kernel

theorem newline_not_mem_opening : '\n' ∉ e.opening.toList := by
  cases e <;> simp only [opening] <;> decide +kernel

/-- The line breaks in a message are those in the texts that it quotes. -/
theorem marksBreaks_message :
    marksBreaks e.message.toList = true ↔ ∀ text ∈ e.quoted, marksBreaks text.toList = true := by
  rw [toList_message, marksBreaks_append_of_not_mem e.newline_not_mem_opening,
    marksBreaks_parts e.isWords_of_mem_parts, ← map_fst_parts, List.forall_mem_map]

end GenerateError

/-- The comment for an error is one exactly if all line breaks in the texts that it quotes are
followed by slashes. -/
theorem isComment_placeholder_iff (e : GenerateError) :
    IsComment (placeholder e) ↔ ∀ text ∈ e.quoted, marksBreaks text.toList = true := by
  have start : slashes <+: ("// error: " ++ e.message).toList := by
    rw [String.toList_append]
    exact (show slashes <+: "// error: ".toList by decide).trans (List.prefix_append _ _)
  rw [placeholder, isComment_iff start, String.toList_append,
    marksBreaks_append_of_not_mem (by decide), e.marksBreaks_message]

/-! Which fields errors are about. -/

namespace Block

section Generic
variable {E : GenerateError → Prop} {o : Options}
  (other : ∀ e : GenerateError, e.field? = none → E e)
include other

theorem ends_chainCode_of_other {child : Block}
    (h : (child.render o .statement false).Ends E fun _ => True) :
    (renderChain o child).Ends E fun _ => True := by
  refine h.andThen fun emitted _ => ?_
  cases emitted with
  | value code level => exact .fail (other _ rfl)
  | statement code | nothing => exact .pure trivial

/-- An error of a block that is about no field is one in its shape, and all others are those of
scripts. -/
theorem ends_render_of_scripts
    (scripts : ∀ (kind : Kind) (n : Node), (kind.script o n).Ends E fun _ => True) (b : Block)
    (place : Place) (alone : Bool) : (b.render o place alone).Ends E fun _ => True := by
  induction b generalizing place alone with
  | mk node values statements next ihv ihs ihn =>
      let b : Block := ⟨node, values, statements, next⟩
      refine ends_render_of_parts (b := b) ?unknown ?following ?script ?values ?bodies
      case unknown => exact fun _ _ => other _ rfl
      case following =>
        exact ends_followingCode fun child h => ends_chainCode_of_other other (ihn child h _ _)
      case script => exact fun _ kind _ => scripts kind node
      case values =>
        intro _ _ _ input level
        simp only [Surroundings.valueIn, get?_renderValues]
        cases plugged : Table.get? b.values input with
        | none => exact .pure trivial
        | some child =>
            refine (ihv _ (Table.mem_of_get? plugged) _ _).andThen fun emitted _ => ?_
            cases emitted with
            | value code inner => exact .pure trivial
            | nothing => exact .pure trivial
            | statement code => exact .fail (other _ rfl)
      case bodies =>
        intro _ _ _ input
        simp only [Surroundings.bodyIn, get?_renderStatements]
        cases plugged : Table.get? b.statements input with
        | none => exact .pure trivial
        | some child =>
            have chain := ends_chainCode_of_other other
              (ihs _ (Table.mem_of_get? plugged) .statement false)
            exact chain.andThen fun code _ => .pure trivial

end Generic

/-- An error is about one of the fields that blocks complain about. -/
theorem field_of_renderTop {o : Options} {b : Block} {ledger after : Ledger} {e : GenerateError}
    (h : b.renderTop o ledger = (.error e, after)) :
    ∀ field ∈ e.field?, field ∈ Template.optionFields := by
  have rendered := b.ends_render_of_scripts (o := o)
    (E := fun e => ∀ field ∈ e.field?, field ∈ Template.optionFields)
    (fun e none field hf => by rw [none] at hf; exact nomatch hf)
    (fun kind n => (kind.stays_script o n).ends.mono (fun _ h => h) fun _ _ => trivial) .top false
  have top : (b.renderTop o).Ends (fun e => ∀ field ∈ e.field?, field ∈ Template.optionFields)
      fun _ => True := rendered.andThen fun _ _ => .pure trivial
  have own := top ledger
  rwa [h] at own

end Block

/-- All texts that a block shows are on one line. -/
structure Node.IsOneLine (n : Node) : Prop where
  id : '\n' ∉ n.id.toList
  kindName : '\n' ∉ n.kindName.toList
  fields : ∀ field ∈ n.fields, '\n' ∉ field.2.toList

theorem Node.IsOneLine.field {n : Node} (h : n.IsOneLine) {field value : String}
    (hf : n.field field = some value) : '\n' ∉ value.toList :=
  h.fields (field, value) (Table.mem_of_get? hf)

theorem newline_not_mem_of_optionField {field : String} (h : field ∈ Template.optionFields) :
    '\n' ∉ field.toList := by
  have all : ∀ field ∈ Template.optionFields, '\n' ∉ field.toList := by decide +kernel
  exact all field h

/-- An error of a block whose texts, and those of all below it, are on one line quotes no line
break. -/
theorem newline_not_mem_quoted {o : Options} {b : Block} {ledger after : Ledger} {e : GenerateError}
    (h : b.renderTop o ledger = (.error e, after)) (oneLine : ∀ n ∈ b.walk, n.IsOneLine) :
    ∀ text ∈ e.quoted, '\n' ∉ text.toList := by
  have culprit := b.ends_renderTop o ledger
  rw [h] at culprit
  obtain ⟨culprit, live, -, blockId, kindName, explains⟩ := culprit
  have own : culprit.node.IsOneLine := oneLine _ (live.isPart.mem_walk culprit.node_mem_walk)
  have field := Block.field_of_renderTop h
  cases e with
  | unknownKind id name | expectedValue id name | expectedStatement id name =>
      obtain rfl : id = culprit.node.id := blockId
      obtain rfl : name = culprit.node.kindName := kindName name rfl
      simp [GenerateError.quoted, own.id, own.kindName]
  | invalidNumber id value =>
      obtain rfl : id = culprit.node.id := blockId
      obtain ⟨name, hvalue⟩ := explains
      simp [GenerateError.quoted, own.id, own.field hvalue]
  | unknownOption id name optionField value =>
      obtain rfl : id = culprit.node.id := blockId
      obtain rfl : name = culprit.node.kindName := kindName name rfl
      have shown : '\n' ∉ value.toList := by
        rw [show value = (culprit.node.field optionField).getD "<missing>" from explains]
        cases hvalue : culprit.node.field optionField with
        | none => decide
        | some given => exact own.field hvalue
      have named := newline_not_mem_of_optionField (field optionField rfl)
      simp [GenerateError.quoted, own.id, own.kindName, shown, named]

/-- Where errors become comments, every block at the top that fails leaves the comment for its error
in the body. It is a comment, line by line, exactly if every line break in the texts that the error
quotes is followed by slashes; so it is one if no id, kind or field value of the block, or of those
that hang from it, has a line break. -/
theorem generate_placeholders (g : Generator) (w : Workspace)
    (policy : g.options.errorPolicy = .comment) :
    let outs := outcomes g.options w.orderedBlocks (Ledger.declareNames {} w.walk)
    (∃ program, (g.generate w).1 = .ok program ∧
      program.body = "\n".intercalate (outs.flatMap fun out => out.2.lines)) ∧
    ∀ b e, (b, Except.error e) ∈ outs →
      Outcome.lines (.error e) = [placeholder e] ∧
      (IsComment (placeholder e) ↔ ∀ text ∈ e.quoted, marksBreaks text.toList = true) ∧
      ((∀ n ∈ b.walk, n.IsOneLine) → IsComment (placeholder e)) := by
  intro outs
  refine ⟨?body, fun b e failed => ⟨rfl, isComment_placeholder_iff e, fun oneLine => ?comment⟩⟩
  case body =>
    have pass : renderAll g.options w.orderedBlocks (Ledger.declareNames {} w.walk) =
        (.ok ⟨outs.flatMap fun out => out.2.lines, outs.filterMap fun out => out.2.error?⟩, _) :=
      Prod.ext (renderAll_fst policy _ _) rfl
    simp only [Generator.generate, Ledger.reset_eq]
    rw [pass]
    exact ⟨_, rfl, rfl⟩
  case comment =>
    obtain ⟨before, after, split⟩ := List.append_of_mem failed
    have fails := (outcome_eq policy split).2
    have quoted := newline_not_mem_quoted (Prod.ext fails rfl) oneLine
    rw [isComment_placeholder_iff]
    exact fun text ht => marksBreaks_of_not_mem (quoted text ht)

/-- An operation whose name has a line break. -/
def brokenOperation : Workspace where
  blocks := [{ node := { id := "a", kindName := "math_arithmetic",
                         fields := [("OP", "x\nlaunch();")] } }]

theorem generate_placeholders_mystery :
    let g : Generator := { options := { errorPolicy := .comment } }
    let w : Workspace := { blocks := [{ node := { id := "m", kindName := "mystery" } }] }
    g.options.errorPolicy = .comment ∧ (∀ b ∈ w.blocks, ∀ n ∈ b.walk, n.IsOneLine) ∧
      IsComment (placeholder (.unknownKind "m" "mystery")) := by
  intro g w
  have oneLine : ∀ b ∈ w.blocks, ∀ n ∈ b.walk, n.IsOneLine := by
    intro b hb n hn
    obtain rfl := List.mem_singleton.mp hb
    obtain rfl := List.mem_singleton.mp hn
    exact ⟨by decide, by decide, by simp⟩
  obtain ⟨-, placeholders⟩ := generate_placeholders g w rfl
  obtain ⟨-, -, comment⟩ := placeholders _ (.unknownKind "m" "mystery") List.mem_cons_self
  exact ⟨rfl, oneLine, comment (oneLine _ List.mem_cons_self)⟩

/-- What follows the line break becomes a line of the program. -/
theorem generate_breaksComment :
    ∃ program, generate { errorPolicy := .comment } brokenOperation = .ok program ∧
      program.body = placeholder (.unknownOption "a" "math_arithmetic" "OP" "x\nlaunch();") ∧
      program.body = "// error: unknown option 'x\n" ++
        "launch();' for field OP of 'math_arithmetic' (block a)\n" ∧
      ¬ IsComment program.body := by
  refine ⟨_, rfl, rfl, by decide +kernel, ?_⟩
  intro comment
  have marked := (isComment_placeholder_iff
    (.unknownOption "a" "math_arithmetic" "OP" "x\nlaunch();")).mp comment
  exact absurd (marked "x\nlaunch();" List.mem_cons_self) (by decide)

end BlockScript
