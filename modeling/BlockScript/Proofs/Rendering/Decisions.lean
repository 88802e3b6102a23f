import BlockScript.Proofs.Rendering.Pieces

/-! # Decisions

The statement of a decision block is a chain of conditions with a body each, and a body for the case
that no condition holds. The suffix template goes to the top of each body, and where it is set there
is a body for the last case too, so that every way through the statement passes the suffix once. -/

namespace BlockScript

/-- A chain of conditions, each with the body that runs if no condition before it holds. -/
structure Decision where
  tests : List (String × String)
  /-- The body that runs if no condition holds. -/
  last : Option String
deriving DecidableEq, Repr

namespace Decision

/-- A body in braces. -/
def block (body : String) : String := "\x7b\n" ++ body ++ "\x7d"

/-- A condition and its body. -/
def testText (test : String × String) : String := "if (" ++ test.1 ++ ") " ++ block test.2

/-- The code of a decision. -/
def text (d : Decision) : String :=
  " else ".intercalate (d.tests.map testText ++ d.last.toList.map block)

/-- All bodies, in order. -/
def bodies (d : Decision) : List String := d.tests.map (·.2) ++ d.last.toList

/-- The bodies that run from the condition with the number `i` on, if `holds` tells which conditions
hold. -/
def runFrom (holds : Nat → Bool) (last : Option String) (i : Nat) :
    List (String × String) → List String
  | [] => last.toList
  | (_, body) :: rest => if holds i then [body] else runFrom holds last (i + 1) rest

/-- The bodies that run. -/
def run (d : Decision) (holds : Nat → Bool) : List String := runFrom holds d.last 0 d.tests

theorem exists_runFrom (holds : Nat → Bool) (last : String) (i : Nat)
    (tests : List (String × String)) :
    ∃ body ∈ tests.map (·.2) ++ [last], runFrom holds (some last) i tests = [body] := by
  induction tests generalizing i with
  | nil => exact ⟨last, by simp, rfl⟩
  | cons test rest ih =>
      rw [runFrom]
      split
      · exact ⟨test.2, by simp, rfl⟩
      · obtain ⟨body, member, runs⟩ := ih (i + 1)
        exact ⟨body, List.mem_cons_of_mem _ member, runs⟩

/-- With a last body exactly one body runs, whichever conditions hold. -/
theorem exists_run {d : Decision} (closed : d.last.isSome = true) (holds : Nat → Bool) :
    ∃ body ∈ d.bodies, d.run holds = [body] := by
  obtain ⟨last, hlast⟩ := Option.isSome_iff_exists.mp closed
  rw [bodies, run, hlast]
  exact exists_runFrom holds last 0 d.tests

example : Decision.run ⟨[("a", "f();\n"), ("b", "g();\n")], none⟩ (· = 1) = ["g();\n"] := rfl

theorem intercalate_cons_eq_join (separator first : String) (rest : List String) :
    separator.intercalate (first :: rest) =
      first ++ String.join (rest.map fun text => separator ++ text) := by
  induction rest generalizing first with
  | nil => simp
  | cons second more ih =>
      rw [String.intercalate_cons_cons, ih, List.map_cons, String.join_cons]
      simp only [String.append_assoc]

/-- The code of a decision condition by condition, with the links in front of all but the first. -/
theorem text_cons (test : String × String) (rest : List (String × String)) (last : Option String) :
    Decision.text ⟨test :: rest, last⟩ =
      "".intercalate (testText test :: rest.map fun test => " else " ++ testText test) ++
        (last.map fun body => " else " ++ block body).getD "" := by
  rw [text, List.map_cons, List.cons_append, intercalate_cons_eq_join, intercalate_cons_eq_join,
    List.map_append, List.map_map, List.map_map, String.join_append, ← String.append_assoc]
  cases last with
  | none => simp [Function.comp_def]
  | some body => simp [Function.comp_def]

end Decision

namespace Block

/-- What stands for the condition in an input of a block: its code, or `false` where the input is
not filled, or with a block that is disabled or leaves no code. -/
inductive RendersCondition (o : Options) (b : Block) (input : String) (ledger : Ledger) :
    String → Ledger → Prop
  | missing (empty : b.value? input = none) : RendersCondition o b input ledger "false" ledger
  | disabled {child : Block} (plugged : b.value? input = some child)
      (off : child.node.disabled = true) : RendersCondition o b input ledger "false" ledger
  | silent {child : Block} {emitted : Emitted} {after : Ledger}
      (plugged : b.value? input = some child) (on : child.node.disabled = false)
      (run : child.render o .value true ledger = (.ok emitted, after))
      (silent : emitted = .nothing ∨ ∃ level, emitted = .value "" level) :
      RendersCondition o b input ledger "false" after
  | code {child : Block} {code : String} {level : Precedence} {after : Ledger}
      (plugged : b.value? input = some child)
      (run : child.render o .value true ledger = (.ok (.value code level), after))
      (nonempty : code ≠ "") : RendersCondition o b input ledger code after

/-- What stands for the chain in an input of a block: its code, indented, or nothing. -/
inductive RendersBranch (o : Options) (b : Block) (input : String) (ledger : Ledger) :
    String → Ledger → Prop
  | missing (empty : b.statement? input = none) : RendersBranch o b input ledger "" ledger
  | chain {first : Block} {code : String} {after : Ledger}
      (plugged : b.statement? input = some first)
      (run : renderChain o first ledger = (.ok code, after)) :
      RendersBranch o b input ledger (Text.prefixLines code o.indent) after

/-- The conditions and the branches of a block from the number `i` on, one after another. -/
inductive RendersTests (o : Options) (b : Block) :
    Nat → Ledger → List (String × String) → Ledger → Prop
  | nil {i : Nat} {ledger : Ledger} : RendersTests o b i ledger [] ledger
  | cons {i : Nat} {ledger first second after : Ledger} {condition branch : String}
      {tests : List (String × String)}
      (test : RendersCondition o b ("IF" ++ toString i) ledger condition first)
      (body : RendersBranch o b ("DO" ++ toString i) first branch second)
      (rest : RendersTests o b (i + 1) second tests after) :
      RendersTests o b i ledger ((condition, branch) :: tests) after

variable {o : Options} {b : Block} {input remarks text : String} {ledger after : Ledger}

/-- What the code of a plugged-in block stands for as a condition. -/
theorem RendersCondition.of_valueCode {child : Block} {emitted : Emitted} {mid : Ledger}
    {found : Option String} (plugged : b.value? input = some child)
    (run : child.render o .value true ledger = (.ok emitted, mid))
    (shown : valueCode child.node .anything emitted mid = (.ok found, after)) :
    RendersCondition o b input ledger (found.getD "false") after := by
  by_cases off : child.node.disabled = true
  · rw [render_alone_of_disabled off] at run
    obtain ⟨rfl, rfl⟩ := Pass.pure_eq_ok.mp run
    obtain ⟨rfl, rfl⟩ := Pass.pure_eq_ok.mp shown
    exact .disabled plugged off
  · have on : child.node.disabled = false := eq_false_of_ne_true off
    cases emitted with
    | statement code => simp [valueCode, Pass.fail] at shown
    | nothing =>
        obtain ⟨rfl, rfl⟩ := Pass.pure_eq_ok.mp shown
        exact .silent plugged on run (.inl rfl)
    | value code level =>
        obtain ⟨rfl, rfl⟩ := Pass.pure_eq_ok.mp shown
        split
        · next empty => exact .silent plugged on run (.inr ⟨level, empty ▸ rfl⟩)
        · next nonempty =>
            rw [Precedence.wrap_anything]
            exact .code plugged run nonempty

/-- A condition is asked for with `false` as its default. -/
theorem run_condition_iff :
    (Script.valueOr input .anything "false").run o (b.surroundings o remarks) ledger =
        (.ok text, after) ↔
      RendersCondition o b input ledger text after := by
  simp only [Script.valueOr, Script.run, Pass.andThen_eq_ok]
  constructor
  · rintro ⟨found, mid, asked, answered⟩
    obtain ⟨rfl, rfl⟩ := Pass.pure_eq_ok.mp answered
    cases plugged : b.value? input with
    | none =>
        rw [valueIn_of_missing plugged] at asked
        obtain ⟨rfl, rfl⟩ := Pass.pure_eq_ok.mp asked
        exact .missing plugged
    | some child =>
        rw [valueIn_of_plugged plugged] at asked
        obtain ⟨emitted, last, run, shown⟩ := Pass.andThen_eq_ok.mp asked
        exact .of_valueCode plugged run shown
  · intro h
    cases h with
    | missing empty => exact ⟨none, ledger, by rw [valueIn_of_missing empty]; rfl, rfl⟩
    | disabled plugged off =>
        refine ⟨none, ledger, ?_, rfl⟩
        rw [valueIn_of_plugged plugged, render_alone_of_disabled off]
        rfl
    | silent plugged on run silent =>
        refine ⟨none, after, ?_, rfl⟩
        rw [valueIn_of_plugged plugged, Pass.andThen_of_ok run]
        obtain rfl | ⟨level, rfl⟩ := silent <;> rfl
    | code plugged run nonempty =>
        refine ⟨some text, after, ?_, rfl⟩
        rw [valueIn_of_plugged plugged, Pass.andThen_of_ok run, valueCode, if_neg nonempty,
          Precedence.wrap_anything]
        rfl

theorem run_branch_iff :
    (Script.bodyOf input).run o (b.surroundings o remarks) ledger = (.ok text, after) ↔
      RendersBranch o b input ledger text after := by
  simp only [Script.bodyOf, Script.run]
  change Pass.andThen _ .pure ledger = _ ↔ _
  rw [Pass.andThen_pure]
  constructor
  · intro asked
    cases plugged : b.statement? input with
    | none =>
        rw [bodyIn_of_missing plugged] at asked
        obtain ⟨rfl, rfl⟩ := Pass.pure_eq_ok.mp asked
        exact .missing plugged
    | some first =>
        rw [bodyIn_of_plugged plugged] at asked
        obtain ⟨code, last, run, shown⟩ := Pass.andThen_eq_ok.mp asked
        obtain ⟨rfl, rfl⟩ := Pass.pure_eq_ok.mp shown
        exact .chain plugged run
  · intro h
    cases h with
    | missing empty =>
        rw [bodyIn_of_missing empty]
        rfl
    | chain plugged run =>
        rw [bodyIn_of_plugged plugged, Pass.andThen_of_ok run]
        rfl

open Template

/-- A condition with its body, linked to the conditions before it. -/
theorem braced_eq (i : Nat) (condition body : String) :
    braced ((if i = 0 then "if (" else " else if (") ++ condition ++ ")") body =
      (if i = 0 then "" else " else ") ++ Decision.testText (condition, body) := by
  rw [braced, Decision.testText, Decision.block, ← String.toList_inj]
  split <;> simp

theorem run_conditional_iff {lead : String} {i : Nat} :
    (conditional lead i).run o (b.surroundings o remarks) ledger = (.ok text, after) ↔
      ∃ condition branch mid, RendersCondition o b ("IF" ++ toString i) ledger condition mid ∧
        RendersBranch o b ("DO" ++ toString i) mid branch after ∧
        text = (if i = 0 then "" else " else ") ++
          Decision.testText (condition, lead ++ branch) := by
  simp only [conditional, Script.run_bind, Pass.andThen_eq_ok, run_condition_iff, run_branch_iff]
  constructor
  · rintro ⟨condition, mid, test, branch, last, body, made⟩
    obtain ⟨rfl, rfl⟩ := Pass.pure_eq_ok.mp made
    exact ⟨condition, branch, mid, test, body, braced_eq i condition (lead ++ branch)⟩
  · rintro ⟨condition, branch, mid, test, body, rfl⟩
    exact ⟨condition, mid, test, branch, after, body,
      Pass.pure_eq_ok.mpr ⟨braced_eq i condition (lead ++ branch), rfl⟩⟩

/-- Conditions behind the first one are linked to those before them. -/
theorem run_tests_iff {lead : String} {i count : Nat} (later : i ≠ 0) {texts : List String} :
    ((List.range' i count).mapM (conditional lead)).run o (b.surroundings o remarks) ledger =
        (.ok texts, after) ↔
      ∃ tests, RendersTests o b i ledger tests after ∧ tests.length = count ∧
        texts = tests.map fun test => " else " ++ Decision.testText (test.1, lead ++ test.2) := by
  induction count generalizing i ledger after texts with
  | zero =>
      constructor
      · intro done
        obtain ⟨rfl, rfl⟩ := Pass.pure_eq_ok.mp done
        exact ⟨[], .nil, rfl, rfl⟩
      · rintro ⟨tests, h, none, rfl⟩
        obtain rfl := List.length_eq_zero_iff.mp none
        cases h
        rfl
  | succ count ih =>
      simp only [List.range'_succ, List.mapM_cons, Script.run_bind, Pass.andThen_eq_ok,
        run_conditional_iff, if_neg later, ih (i := i + 1) i.succ_ne_zero]
      constructor
      · rintro ⟨first, mid, ⟨condition, branch, half, test, body, rfl⟩, rest, last,
          ⟨tests, h, rfl, rfl⟩, made⟩
        obtain ⟨rfl, rfl⟩ := Pass.pure_eq_ok.mp made
        exact ⟨(condition, branch) :: tests, .cons test body h, rfl, rfl⟩
      · rintro ⟨tests, h, counted, rfl⟩
        cases h with
        | nil => simp at counted
        | @cons _ _ half mid _ condition branch tests test body rest =>
            exact ⟨_, mid, ⟨condition, branch, half, test, body, rfl⟩, _, after,
              ⟨tests, rest, Nat.succ.inj counted, rfl⟩, rfl⟩

theorem run_chain_iff {lead : String} {count : Nat} {texts : List String} :
    ((List.range (count + 1)).mapM (conditional lead)).run o (b.surroundings o remarks) ledger =
        (.ok texts, after) ↔
      ∃ first rest, RendersTests o b 0 ledger (first :: rest) after ∧ rest.length = count ∧
        texts = Decision.testText (first.1, lead ++ first.2) ::
          rest.map fun test => " else " ++ Decision.testText (test.1, lead ++ test.2) := by
  simp only [List.range_eq_range', List.range'_succ, List.mapM_cons, Script.run_bind,
    Pass.andThen_eq_ok, run_conditional_iff, run_tests_iff Nat.one_ne_zero]
  constructor
  · rintro ⟨first, mid, ⟨condition, branch, half, test, body, rfl⟩, rest, last,
      ⟨tests, h, rfl, rfl⟩, made⟩
    obtain ⟨rfl, rfl⟩ := Pass.pure_eq_ok.mp made
    exact ⟨(condition, branch), tests, .cons test body h, rfl, by simp⟩
  · rintro ⟨first, tests, h, rfl, rfl⟩
    cases h with
    | @cons _ _ half mid _ condition branch _ test body rest =>
        exact ⟨_, mid, ⟨condition, branch, half, test, body, rfl⟩, _, after,
          ⟨tests, rest, rfl, rfl⟩, Pass.pure_eq_ok.mpr ⟨by simp, rfl⟩⟩

theorem run_isPlugged (input : String) :
    (Script.isPlugged input).run o (b.surroundings o remarks) =
      .pure (b.statement? input).isSome := by
  simp only [Script.isPlugged, Script.run, get?_renderStatements, Option.isSome_map, statement?]

theorem run_otherwise_iff {lead : String} :
    (otherwise lead).run o (b.surroundings o remarks) ledger = (.ok text, after) ↔
      ∃ branch, RendersBranch o b "ELSE" ledger branch after ∧
        text = " else " ++ Decision.block (lead ++ branch) := by
  have shape (body : String) : braced " else" body = " else " ++ Decision.block body := by
    rw [braced, Decision.block, ← String.toList_inj]
    simp
  simp only [otherwise, Script.run_bind, Pass.andThen_eq_ok, run_branch_iff]
  constructor
  · rintro ⟨branch, mid, body, made⟩
    obtain ⟨rfl, rfl⟩ := Pass.pure_eq_ok.mp made
    exact ⟨branch, body, shape _⟩
  · rintro ⟨branch, body, rfl⟩
    exact ⟨branch, after, body, Pass.pure_eq_ok.mpr ⟨shape _, rfl⟩⟩

/-- Does a decision block have a body for the case that no condition holds? -/
def HasElse (kind : Kind) (b : Block) : Prop :=
  kind = .controlsIfElse ∨ b.node.mutation.hasElse = true ∨ (b.statement? "ELSE").isSome = true

/-- What is put to the top of each body of a decision block: the suffix template, indented. -/
def branchLead (o : Options) (n : Node) : String :=
  ((o.suffixFor n.id).map (Text.prefixLines · o.indent)).getD ""

/-- The decision that a block stands for. There is a body for the last case if the block has one, or
where the suffix template is to be passed. -/
inductive RendersDecision (o : Options) (kind : Kind) (b : Block) (ledger : Ledger) :
    Decision → Ledger → Prop
  | bare {tests : List (String × String)} {after : Ledger}
      (chain : RendersTests o b 0 ledger tests after)
      (count : tests.length = b.node.mutation.elseIfCount + 1)
      (unwanted : ¬ (b.HasElse kind ∨ (o.suffixFor b.node.id).isSome = true)) :
      RendersDecision o kind b ledger
        ⟨tests.map fun test => (test.1, branchLead o b.node ++ test.2), none⟩ after
  | closed {tests : List (String × String)} {mid after : Ledger} {branch : String}
      (chain : RendersTests o b 0 ledger tests mid)
      (count : tests.length = b.node.mutation.elseIfCount + 1)
      (wanted : b.HasElse kind ∨ (o.suffixFor b.node.id).isSome = true)
      (last : RendersBranch o b "ELSE" mid branch after) :
      RendersDecision o kind b ledger
        ⟨tests.map fun test => (test.1, branchLead o b.node ++ test.2),
          some (branchLead o b.node ++ branch)⟩ after

/-- A decision block asks for its decision and writes it behind the prefix template. -/
theorem own_decision_iff {kind : Kind} {emitted : Emitted}
    (decides : kind = .controlsIf ∨ kind = .controlsIfElse) :
    b.own o kind ledger = (.ok emitted, after) ↔
      ∃ d, RendersDecision o kind b ledger d after ∧
        emitted = .statement ((o.prefixFor b.node.id).getD "" ++ d.text ++ "\n") := by
  have script : kind.script o b.node = controlsIf (decide (kind = .controlsIfElse)) o b.node := by
    obtain rfl | rfl := decides <;> rfl
  have wants : (decide (kind = .controlsIfElse) || b.node.mutation.hasElse ||
      (b.statement? "ELSE").isSome ||
        ((o.suffixFor b.node.id).map (Text.prefixLines · o.indent)).isSome) = true ↔
      b.HasElse kind ∨ (o.suffixFor b.node.id).isSome = true := by
    simp only [HasElse, Option.isSome_map, Bool.or_eq_true, decide_eq_true_eq, or_assoc]
  rw [own, script]
  simp only [controlsIf, Script.run_bind, run_isPlugged, Pass.pure_andThen]
  simp only [Pass.andThen_eq_ok, run_chain_iff]
  constructor
  · rintro ⟨texts, mid, ⟨first, rest, chain, count, rfl⟩, ending⟩
    have counted : (first :: rest).length = b.node.mutation.elseIfCount + 1 := by
      rw [List.length_cons, count]
    split at ending
    · next wanted =>
        rw [Script.run_bind, Pass.andThen_eq_ok] at ending
        obtain ⟨last, mid', otherwise, made⟩ := ending
        obtain ⟨branch, body, rfl⟩ := run_otherwise_iff.mp otherwise
        obtain ⟨rfl, rfl⟩ := Pass.pure_eq_ok.mp made
        refine ⟨_, .closed chain counted (wants.mp wanted) body, ?_⟩
        simp [Decision.text_cons, branchLead, Function.comp_def, String.append_assoc]
    · next unwanted =>
        obtain ⟨rfl, rfl⟩ := Pass.pure_eq_ok.mp ending
        refine ⟨_, .bare chain counted (fun wanted => unwanted (wants.mpr wanted)), ?_⟩
        simp [Decision.text_cons, branchLead, Function.comp_def]
  · rintro ⟨d, decision, rfl⟩
    cases decision with
    | @bare tests _ chain count unwanted =>
        obtain ⟨first, rest, rfl⟩ := List.exists_cons_of_length_eq_add_one count
        refine ⟨_, after, ⟨first, rest, chain, Nat.succ.inj count, rfl⟩, ?_⟩
        rw [if_neg fun wanted => unwanted (wants.mp wanted)]
        refine Pass.pure_eq_ok.mpr ⟨?_, rfl⟩
        simp [Decision.text_cons, branchLead, Function.comp_def]
    | @closed tests mid _ branch chain count wanted body =>
        obtain ⟨first, rest, rfl⟩ := List.exists_cons_of_length_eq_add_one count
        refine ⟨_, mid, ⟨first, rest, chain, Nat.succ.inj count, rfl⟩, ?_⟩
        rw [if_pos (wants.mpr wanted), Script.run_bind,
          Pass.andThen_of_ok (run_otherwise_iff.mpr ⟨branch, body, rfl⟩)]
        refine Pass.pure_eq_ok.mpr ⟨?_, rfl⟩
        simp [Decision.text_cons, branchLead, Function.comp_def, String.append_assoc]

/-- Some condition, or some branch, is what stands for an input of a block. -/
def ShowsCondition (o : Options) (b : Block) (input condition : String) : Prop :=
  ∃ before after, RendersCondition o b input before condition after

def ShowsBranch (o : Options) (b : Block) (input branch : String) : Prop :=
  ∃ before after, RendersBranch o b input before branch after

theorem RendersTests.forall₂ {i : Nat} {tests : List (String × String)}
    (h : RendersTests o b i ledger tests after) :
    List.Forall₂ (fun j test => ShowsCondition o b ("IF" ++ toString j) test.1 ∧
      ShowsBranch o b ("DO" ++ toString j) test.2) (List.range' i tests.length) tests := by
  induction h with
  | nil => exact .nil
  | cons test body rest ih => exact .cons ⟨⟨_, _, test⟩, ⟨_, _, body⟩⟩ ih

/-- The numbers of the conditions of a decision block. -/
def testNumbers (n : Node) : List Nat := List.range (n.mutation.elseIfCount + 1)

/-- The inputs for the branches of a decision block, the last of them for the case that no condition
holds. -/
def branchInputs (n : Node) : List String :=
  ((testNumbers n).map fun i => "DO" ++ toString i) ++ ["ELSE"]

/-- Every way through a decision passes the suffix template of its block: each body starts with the
template, once, in front of its own branch, and exactly one body runs. -/
structure PassesSuffix (o : Options) (b : Block) (template : String) (d : Decision) : Prop where
  closed : d.last.isSome = true
  bodies : List.Forall₂
    (fun input body => ∃ branch, ShowsBranch o b input branch ∧
      body = Text.prefixLines (Text.injectId template b.node.id) o.indent ++ branch)
    (branchInputs b.node) d.bodies
  once : ∀ holds, ∃ body ∈ d.bodies, d.run holds = [body]

variable {kind : Kind} {d : Decision}

theorem RendersDecision.tests (h : RendersDecision o kind b ledger d after) :
    List.Forall₂ (fun i test => ShowsCondition o b ("IF" ++ toString i) test.1 ∧
      ∃ branch, ShowsBranch o b ("DO" ++ toString i) branch ∧
        test.2 = branchLead o b.node ++ branch)
      (testNumbers b.node) d.tests := by
  rcases h with ⟨chain, count, -⟩ | ⟨chain, count, -, -⟩ <;>
  · rw [testNumbers, List.range_eq_range', ← count, List.forall₂_map_right_iff]
    exact chain.forall₂.imp fun i test shown => ⟨shown.1, test.2, shown.2, rfl⟩

theorem suffixFor_eq_some {template : String} (set : o.statementSuffix = some template)
    (nonempty : template ≠ "") (id : String) :
    o.suffixFor id = some (Text.injectId template id) := by
  simp [Options.suffixFor, Options.instantiate, set, nonempty]

theorem suffixFor_eq_none (unset : ∀ template, o.statementSuffix = some template → template = "")
    (id : String) : o.suffixFor id = none := by
  cases set : o.statementSuffix with
  | none => simp [Options.suffixFor, Options.instantiate, set]
  | some template => simp [Options.suffixFor, Options.instantiate, set, unset template set]

theorem RendersDecision.passesSuffix (h : RendersDecision o kind b ledger d after)
    {template : String} (set : o.statementSuffix = some template) (nonempty : template ≠ "") :
    PassesSuffix o b template d := by
  have suffix := suffixFor_eq_some set nonempty b.node.id
  have lead : branchLead o b.node =
      Text.prefixLines (Text.injectId template b.node.id) o.indent := by
    rw [branchLead, suffix]
    rfl
  have tests := h.tests
  rcases h with ⟨-, -, unwanted⟩ | ⟨chain, count, -, last⟩
  · exact absurd (.inr (by rw [suffix]; rfl)) unwanted
  · rw [lead] at tests ⊢
    refine ⟨rfl, ?_, Decision.exists_run rfl⟩
    rw [branchInputs, Decision.bodies]
    refine List.rel_append ?_ (.cons ⟨_, ⟨_, _, last⟩, rfl⟩ .nil)
    rw [List.forall₂_map_left_iff, List.forall₂_map_right_iff]
    exact tests.imp fun i test shown => shown.2

theorem RendersDecision.last_iff (h : RendersDecision o kind b ledger d after)
    (unset : ∀ template, o.statementSuffix = some template → template = "") :
    d.last.isSome = true ↔ b.HasElse kind := by
  have wants : (b.HasElse kind ∨ (o.suffixFor b.node.id).isSome = true) ↔ b.HasElse kind := by
    rw [suffixFor_eq_none unset]
    simp
  rcases h with ⟨-, -, unwanted⟩ | ⟨-, -, wanted, -⟩
  · exact iff_of_false (by simp) (fun has => unwanted (wants.mpr has))
  · exact iff_of_true rfl (wants.mp wanted)

/-- The statement of a decision block is its prefix template and its decision, between its comments
and what follows it: a chain of all its conditions, in order. Where a suffix template is set every
way through passes it. Otherwise there is a body for the last case exactly if the block has one. -/
theorem render_decides (on : b.node.disabled = false)
    (known : Kind.ofTypeName? b.node.kindName = some kind)
    (decides : kind = .controlsIf ∨ kind = .controlsIfElse) :
    (∀ place alone ledger emitted after,
      b.render o place alone ledger = (.ok emitted, after) ↔
        ∃ d mid following, RendersDecision o kind b ledger d mid ∧
          followingCode alone (renderNext o b.next) mid = (.ok following, after) ∧
          emitted = .statement (remarksAt place (remarkLines kind b.node b.values) ++
            ((o.prefixFor b.node.id).getD "" ++ d.text ++ "\n") ++ following)) ∧
    ∀ ledger d mid, RendersDecision o kind b ledger d mid →
      List.Forall₂ (fun i test => ShowsCondition o b ("IF" ++ toString i) test.1 ∧
        ∃ branch, ShowsBranch o b ("DO" ++ toString i) branch ∧
          test.2 = branchLead o b.node ++ branch) (testNumbers b.node) d.tests ∧
      (∀ template, o.statementSuffix = some template → template ≠ "" →
        PassesSuffix o b template d) ∧
      ((∀ template, o.statementSuffix = some template → template = "") →
        (d.last.isSome = true ↔ b.HasElse kind)) := by
  have bare (code : String) : withTemplates o kind b.node code = code := by
    obtain rfl | rfl := decides <;> rfl
  refine ⟨fun place alone ledger emitted after => ?_, fun ledger d mid h => ?_⟩
  · rw [render_eq]
    simp only [renderNode, on, Bool.false_eq_true, if_false, known]
    change (b.own o kind).andThen _ ledger = _ ↔ _
    simp only [Pass.andThen_eq_ok, own_decision_iff decides]
    constructor
    · rintro ⟨own, mid, ⟨d, decision, rfl⟩, around⟩
      obtain ⟨following, last, follows, made⟩ := Pass.andThen_eq_ok.mp around
      obtain ⟨rfl, rfl⟩ := Pass.pure_eq_ok.mp made
      exact ⟨d, mid, following, decision, follows, by rw [bare]⟩
    · rintro ⟨d, mid, following, decision, follows, rfl⟩
      refine ⟨_, mid, ⟨d, decision, rfl⟩, Pass.andThen_eq_ok.mpr ⟨following, after, follows, ?_⟩⟩
      rw [bare]
      rfl
  · exact ⟨h.tests, fun template => h.passesSuffix, h.last_iff⟩

/-- A decision with two conditions and no body for the last case. -/
def twoTests : Block where
  node := { id := "c", kindName := "controls_if", mutation := { attributes := [("elseif", "1")] } }
  values := [("IF0",
    { node := { id := "t", kindName := "logic_boolean", fields := [("BOOL", "TRUE")] } })]
  statements := [("DO1", { node := { id := "p", kindName := "text_print" } })]

theorem render_decides_twoTests :
    let o : Options := { statementSuffix := some "trace(%1);\n" }
    twoTests.render o .top true {} = (.ok (.statement
      ("if (true) \x7b\n  trace('c');\n\x7d else if (false) \x7b\n  trace('c');\n  print('');\n" ++
        "  trace('p');\n\x7d else \x7b\n  trace('c');\n\x7d\n")), {}) ∧
      ∃ d mid, RendersDecision o .controlsIf twoTests {} d mid ∧
        PassesSuffix o twoTests "trace(%1);\n" d := by
  intro o
  have known : Kind.ofTypeName? twoTests.node.kindName = some .controlsIf := by decide +kernel
  have run : twoTests.render o .top true {} = (.ok (.statement
      ("if (true) \x7b\n  trace('c');\n\x7d else if (false) \x7b\n  trace('c');\n  print('');\n" ++
        "  trace('p');\n\x7d else \x7b\n  trace('c');\n\x7d\n")), {}) := by
    decide +kernel
  obtain ⟨renders, decided⟩ := render_decides (o := o) (b := twoTests) rfl known (.inl rfl)
  obtain ⟨d, mid, -, decision, -⟩ := (renders .top true {} _ {}).mp run
  exact ⟨run, d, mid, decision, (decided {} d mid decision).2.1 _ rfl (by decide)⟩

end Block

end BlockScript
