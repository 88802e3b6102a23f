import BlockScript.Proofs.Rendering.Ensures

/-! # Chains of statements in their blocks

The code of a chain in a statement input stands whole in the code of its block: in the block's
own statement, or in what the block defines. The events of the chain are among the block's. -/

namespace BlockScript

/-- Each of several texts stands in all of them joined. -/
theorem Text.exists_intercalate_eq (separator : String) {text : String} {texts : List String}
    (member : text ∈ texts) :
    ∃ before after, separator.intercalate texts = before ++ text ++ after := by
  induction texts with
  | nil => exact absurd member List.not_mem_nil
  | cons first rest ih =>
      rcases List.mem_cons.mp member with rfl | member
      · cases rest with
        | nil => exact ⟨"", "", by simp⟩
        | cons second more =>
            refine ⟨"", separator ++ separator.intercalate (second :: more), ?_⟩
            simp [String.append_assoc]
      · obtain ⟨before, after, heq⟩ := ih member
        cases rest with
        | nil => exact absurd member List.not_mem_nil
        | cons second more =>
            refine ⟨first ++ separator ++ before, after, ?_⟩
            rw [String.intercalate_cons_cons, heq]
            simp [String.append_assoc]

/-- The inputs whose chains stand in the statement of a block. -/
inductive Kind.Encloses (n : Node) : Kind → String → Prop
  | branch (i : Nat) (h : i ≤ n.mutation.elseIfCount) : Encloses n .controlsIf ("DO" ++ toString i)
  | otherwise : Encloses n .controlsIf "ELSE"
  | branchIfElse (i : Nat) (h : i ≤ n.mutation.elseIfCount) :
      Encloses n .controlsIfElse ("DO" ++ toString i)
  | otherwiseIfElse : Encloses n .controlsIfElse "ELSE"
  | forever : Encloses n .forever "STMTS"
  | onStart : Encloses n .onStart "STMTS"

/-- The replies where something is known of one statement input, which is filled. -/
def Replies.ofBody (input : String) (B : String → List Event → Prop) : Replies where
  value := fun _ _ _ _ => True
  body := fun other code events => other = input → B code events
  plugged := fun other answer => other = input → answer = true
  mayFail := True

/-- A chain in an input gives what is known of the input, once it is indented. -/
theorem Replies.ofBody_hold {o : Options} {values statements : List (String × Block)}
    {input : String} {first : Block} {B : String → List Event → Prop}
    (filled : Table.get? statements input = some first)
    (chain : (Block.renderChain o first).Gives (first.events o false) True fun code es =>
      B (Text.prefixLines code o.indent) es) (remarks : String) :
    (Replies.ofBody input B).Hold o
      ⟨remarks, Block.renderValues o values, Block.renderStatements o statements⟩
      ⟨Block.inputEvents o true values, Block.inputEvents o false statements⟩ := by
  constructor
  · intro other level
    exact Pass.Gives.trivial trivial _ _
  · intro _ other
    refine Block.gives_bodyIn ?_ ?_
    · rintro missing rfl
      rw [filled] at missing
      simp at missing
    · intro child found
      by_cases same : other = input
      · subst same
        obtain rfl := Option.some.inj (filled.symm.trans found)
        exact chain.mono fun _ _ h _ => h
      · exact (Pass.Gives.trivial trivial _ _).mono fun _ _ _ h => absurd h same
  · rintro other rfl
    simp [Block.get?_renderStatements, filled]

/-- Some code that something is known of, with its events, stands in a text. -/
def Within (B : String → List Event → Prop) (text : String) (events : List Event) : Prop :=
  ∃ code own before after, B code own ∧ own ⊆ events ∧ text = before ++ code ++ after

section Within
variable {B : String → List Event → Prop} {text : String} {events more : List Event}

theorem Within.of_body {code : String} (h : B code events) : Within B code events :=
  ⟨code, events, "", "", h, List.Subset.refl _, by simp⟩

theorem Within.events_mono (h : Within B text events) (sub : events ⊆ more) :
    Within B text more := by
  obtain ⟨code, own, before, after, hb, hsub, rfl⟩ := h
  exact ⟨code, own, before, after, hb, List.Subset.trans hsub sub, rfl⟩

theorem Within.append (h : Within B text events) (first last : String) :
    Within B (first ++ text ++ last) events := by
  obtain ⟨code, own, before, after, hb, hsub, rfl⟩ := h
  exact ⟨code, own, first ++ before, after ++ last, hb, hsub, by simp [String.append_assoc]⟩

theorem Within.append_left (h : Within B text events) (first : String) :
    Within B (first ++ text) events := by
  simpa using h.append first ""

theorem Within.append_right (h : Within B text events) (last : String) :
    Within B (text ++ last) events := by
  simpa using h.append "" last

/-- What stands in one of several texts stands in all of them joined. -/
theorem Within.join {texts : List String} (member : text ∈ texts) (h : Within B text events) :
    Within B ("".intercalate texts) events := by
  obtain ⟨before, after, heq⟩ := Text.exists_intercalate_eq "" member
  rw [heq]
  exact h.append before after

end Within

namespace Template
open Script

variable {B : String → List Event → Prop} {input : String}

theorem ensures_conditional (lead : String) (i : Nat) :
    (conditional lead i).Ensures (.ofBody input B) fun branch es =>
      "DO" ++ toString i = input → Within B branch es := by
  refine fun condition first _ => ⟨trivial, fun code events reply hi => ?_⟩
  have body : Within B (lead ++ code) events := (Within.of_body (reply hi)).append_left lead
  exact (body.append _ _).events_mono (by simp)

theorem ensures_otherwise (lead : String) :
    (otherwise lead).Ensures (.ofBody "ELSE" B) fun branch es => Within B branch es := by
  refine ⟨trivial, fun code events reply => ?_⟩
  have body : Within B (lead ++ code) events := (Within.of_body (reply rfl)).append_left lead
  exact (body.append _ _).events_mono (by simp)

theorem ensures_controlsIf_branch (endsWithElse : Bool) (o : Options) (n : Node) {i : Nat}
    (h : i ≤ n.mutation.elseIfCount) :
    (controlsIf endsWithElse o n).Ensures (.ofBody ("DO" ++ toString i) B) fun emitted es =>
      ∃ text, emitted = .statement text ∧ Within B text es := by
  have hmem : i ∈ List.range (n.mutation.elseIfCount + 1) := List.mem_range.mpr (by omega)
  unfold controlsIf
  refine Ensures.bind ((Ensures.mapM fun j _ => ensures_conditional _ j).mono fun branches es hs => ?_)
  obtain ⟨branch, hbranch, own, hsub, hbody⟩ := hs i hmem
  have joined := (Within.join hbranch (hbody rfl)).events_mono hsub
  refine fun hasElse _ => ?_
  dsimp only [Script.bind]
  split
  · refine Ensures.bind ((Ensures.trivial trivial _).mono fun last more _ => ?_)
    exact ⟨_, rfl, (((joined.append_left _).append_right last).append_right "\n").events_mono
      (by simp)⟩
  · exact ⟨_, rfl, ((joined.append_left _).append_right "\n").events_mono (by simp)⟩

theorem ensures_controlsIf_else (endsWithElse : Bool) (o : Options) (n : Node) :
    (controlsIf endsWithElse o n).Ensures (.ofBody "ELSE" B) fun emitted es =>
      ∃ text, emitted = .statement text ∧ Within B text es := by
  unfold controlsIf
  refine Ensures.bind ((Ensures.trivial trivial _).mono fun branches es _ => ?_)
  refine fun hasElse filled => ?_
  have hElse : hasElse = true := filled rfl
  dsimp only [Script.bind]
  rw [if_pos (by simp [hElse])]
  refine Ensures.bind ((ensures_otherwise _).mono fun last more hlast => ?_)
  exact ⟨_, rfl, ((hlast.append_left _).append_right "\n").events_mono (by simp)⟩

theorem ensures_forever (o : Options) (n : Node) :
    (forever o n).Ensures (.ofBody "STMTS" B) fun emitted es =>
      ∃ text, emitted = .statement text ∧ Within B text es := by
  refine ⟨trivial, fun code events reply => ?_⟩
  have body : Within B (loopBody o n code) events :=
    ((Within.of_body (reply rfl)).append_left _).append_right _
  exact ⟨_, rfl, ((body.append_left _).append_right ")").events_mono (by simp)⟩

theorem ensures_onStart :
    onStart.Ensures (.ofBody "STMTS" B) fun emitted es =>
      ∃ text, emitted = .statement text ∧ Within B text es := by
  refine ⟨trivial, fun code events reply => ?_⟩
  exact ⟨_, rfl, (((Within.of_body (reply rfl)).append_left _).append_right ")").events_mono
    (by simp)⟩

/-- A routine leaves nothing at its place, and one definition. -/
theorem ensures_defineRoutine {r : Replies} (name code : String) :
    (defineRoutine name code).Ensures r fun emitted es =>
      emitted = .nothing ∧ ∃ comments, es = [.define (definitionKey name) (comments ++ code)] :=
  fun comments => ⟨rfl, comments, rfl⟩

/-- What stands in the code of a routine stands in its definition. -/
theorem ensures_defineRoutine_within {r : Replies} (B : String → List Event → Prop)
    (events : List Event) (name : String) {code : String} (h : Within B code events) :
    (defineRoutine name code).Ensures r fun _ more =>
      ∃ name text, .define (definitionKey name) text ∈ more ∧ Within B text events := by
  refine (ensures_defineRoutine name code).mono ?_
  rintro emitted more ⟨-, comments, rfl⟩
  exact ⟨name, _, List.mem_singleton_self _, h.append_left comments⟩

theorem ensures_proceduresDefine (o : Options) (n : Node) :
    (proceduresDefine o n).Ensures (.ofBody "STACK" B) fun _ es =>
      (∃ code own, B code own ∧ own ⊆ es) ∧
        ∃ name text, .define (definitionKey name) text ∈ es ∧ Within B text es := by
  refine fun routine => ⟨trivial, fun body events reply result others _ => ?_⟩
  have hb : B body events := reply rfl
  have within : Within B body events := .of_body hb
  dsimp only [Script.bind]
  refine Ensures.bind ((Ensures.trivial trivial _).mono fun arguments more _ => ?_)
  cases result with
  | none =>
      refine (ensures_defineRoutine_within B events routine ?_).mono ?_
      · apply Within.append_right
        exact (within.append_left _).append_left "void "
      · rintro emitted last ⟨name, text, hdef, htext⟩
        exact ⟨⟨body, events, hb, by simp⟩, name, text, by simp [hdef],
          htext.events_mono (by simp)⟩
  | some returned =>
      refine (ensures_defineRoutine_within B events routine ?_).mono ?_
      · iterate 5 apply Within.append_right
        exact (within.append_left _).append_left "dynamic "
      · rintro emitted last ⟨name, text, hdef, htext⟩
        exact ⟨⟨body, events, hb, by simp⟩, name, text, by simp [hdef],
          htext.events_mono (by simp)⟩

/-- The handler of a widget is defined unless its name is that of a function of a module. -/
theorem ensures_widgetsDefine (o : Options) (n : Node) :
    (widgetsDefine o n).Ensures (.ofBody "STACK" B) fun _ es =>
      (∃ code own, B code own ∧ own ⊆ es) ∧
        ∃ given result, .name .procedureName (n.fieldText "NAME") given ∈ es ∧
          (isQualified (handlerName given (handlerHead given result).1) = false →
            ∃ name text, .define (definitionKey name) text ∈ es ∧ Within B text es) := by
  refine fun widget => ⟨trivial, fun body events reply result others _ => ?_⟩
  have hb : B body events := reply rfl
  have within : Within B body events := .of_body hb
  dsimp only [Script.bind]
  cases qualified : isQualified (handlerName widget (handlerHead widget result).1) with
  | true =>
    refine ⟨⟨body, events, hb, by simp⟩, widget, result, by simp, fun unqualified => ?_⟩
    exact absurd (qualified.symm.trans unqualified) (by decide)
  | false =>
    refine Ensures.bind ((Ensures.trivial trivial _).mono fun arguments more _ => ?_)
    refine (ensures_defineRoutine_within B events _ ?_).mono ?_
    · iterate 4 apply Within.append_right
      exact (within.append_left _).append_left _
    · rintro emitted last ⟨name, text, hdef, htext⟩
      exact ⟨⟨body, events, hb, by simp⟩, widget, result, by simp, fun _ =>
        ⟨name, text, by simp [hdef], htext.events_mono (by simp)⟩⟩

end Template

/-- The code of an enclosed chain stands in the statement of its block. -/
theorem Kind.Encloses.ensures {B : String → List Event → Prop} {kind : Kind} {n : Node}
    {input : String} (h : kind.Encloses n input) (o : Options) :
    (kind.script o n).Ensures (.ofBody input B) fun emitted es =>
      ∃ text, emitted = .statement text ∧ Within B text es := by
  cases h with
  | branch i hi => exact Template.ensures_controlsIf_branch false o n hi
  | otherwise => exact Template.ensures_controlsIf_else false o n
  | branchIfElse i hi => exact Template.ensures_controlsIf_branch true o n hi
  | otherwiseIfElse => exact Template.ensures_controlsIf_else true o n
  | forever => exact Template.ensures_forever o n
  | onStart => exact Template.ensures_onStart

/-! Blocks that leave a statement. -/

/-- Is the code of a block a statement? A list block that removes an element is one too. -/
def Kind.leavesStatement (n : Node) : Kind → Bool
  | .controlsIf | .controlsIfElse | .mathChange | .textAppend | .textPrint | .listsSetIndex
  | .variablesSet | .variablesSetDynamic | .proceduresCallNoReturn | .proceduresIfReturn
  | .forever | .wait | .digitalTogglePin | .digitalWritePin | .onStart | .widgetsCallNoReturn
  | .widgetsIfReturn => true
  | .listsGetIndex => n.field "MODE" == some "REMOVE"
  | _ => false

/-- The result is a statement. -/
def IsStatement : Emitted → List Event → Prop := fun emitted _ => ∃ text, emitted = .statement text

namespace Template
open Script

section Statements
variable {r : Replies} {α : Type}

theorem leaves_statement (text : String) : (done (.statement text)).Ensures r IsStatement :=
  ⟨text, rfl⟩

theorem leaves_after (fails : r.mayFail) {s : Script α} {f : α → Script Emitted}
    (h : ∀ a, (f a).Ensures r IsStatement) : (s >>= f).Ensures r IsStatement :=
  Ensures.after fails (fun _ _ _ hb => hb) h

theorem leaves_controlsIf (fails : r.mayFail) (endsWithElse : Bool) (o : Options) (n : Node) :
    (controlsIf endsWithElse o n).Ensures r IsStatement := by
  unfold controlsIf
  refine leaves_after fails fun branches => leaves_after fails fun hasElse => ?_
  split
  · exact leaves_after fails fun last => leaves_statement _
  · exact leaves_statement _

theorem leaves_listsSetIndex (fails : r.mayFail) (o : Options) (n : Node) :
    (listsSetIndex o n).Ensures r IsStatement :=
  leaves_after fails fun _ => leaves_after fails fun _ => leaves_after fails fun _ =>
    leaves_after fails fun _ => leaves_after fails fun _ => leaves_statement _

theorem leaves_dropRandom (fails : r.mayFail) (binding list : String) :
    (dropRandom binding list).Ensures r IsStatement :=
  leaves_after fails fun _ => leaves_statement _

theorem leaves_readHoisted (fails : r.mayFail) (o : Options) (position : Position)
    (list : String) : (readHoisted o .drop position list).Ensures r IsStatement := by
  unfold readHoisted
  split
  · exact leaves_after fails fun _ => leaves_after fails fun _ => leaves_dropRandom fails _ _
  · exact leaves_after fails fun _ => leaves_after fails fun _ => leaves_statement _

theorem leaves_readDirect (fails : r.mayFail) (o : Options) (list : String)
    (position : Position) : (readDirect o .drop list position).Ensures r IsStatement := by
  cases position with
  | first => exact leaves_statement _
  | last => exact leaves_statement _
  | fromStart => exact leaves_after fails fun _ => leaves_statement _
  | fromEnd => exact leaves_after fails fun _ => leaves_statement _
  | random => exact leaves_after fails fun _ => leaves_dropRandom fails _ _

theorem leaves_listsGetIndex (fails : r.mayFail) (o : Options) {n : Node}
    (h : n.field "MODE" = some "REMOVE") : (listsGetIndex o n).Ensures r IsStatement := by
  have mode : readMode n = done .drop := by simp [readMode, h]
  unfold listsGetIndex
  rw [mode, done_bind]
  refine leaves_after fails fun position => leaves_after fails fun list => ?_
  split
  · exact leaves_readHoisted fails o position list
  · exact leaves_readDirect fails o list position

theorem leaves_wait (fails : r.mayFail) (n : Node) : (wait n).Ensures r IsStatement := by
  unfold wait
  dsimp only
  split
  · exact leaves_statement _
  · exact fails

end Statements

end Template

/-- Blocks that leave a statement leave one whatever the replies are. -/
theorem Kind.leaves {r : Replies} (fails : r.mayFail) {kind : Kind} {n : Node}
    (h : kind.leavesStatement n = true) (o : Options) : (kind.script o n).Ensures r IsStatement := by
  open Template in
  cases kind with
  | controlsIf => exact leaves_controlsIf fails false o n
  | controlsIfElse => exact leaves_controlsIf fails true o n
  | listsSetIndex => exact leaves_listsSetIndex fails o n
  | listsGetIndex => exact leaves_listsGetIndex fails o (by simpa [leavesStatement] using h)
  | wait => exact leaves_wait fails n
  | forever | onStart | textPrint | digitalTogglePin | widgetsCallNoReturn
  | proceduresCallNoReturn =>
      dsimp only [script]
      exact leaves_after fails fun _ => leaves_statement _
  | mathChange | textAppend | variablesSet | variablesSetDynamic | digitalWritePin
  | proceduresIfReturn | widgetsIfReturn =>
      dsimp only [script]
      exact leaves_after fails fun _ => leaves_after fails fun _ => leaves_statement _
  | _ => simp [leavesStatement] at h

end BlockScript
