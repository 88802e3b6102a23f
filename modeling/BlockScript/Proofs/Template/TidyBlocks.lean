import BlockScript.Proofs.Template.TidyStatements
import BlockScript.Proofs.Text.LineEnds
import BlockScript.Proofs.Text.WholeLines

/-! # Blocks are tidy

What the scripts of blocks keep, whole blocks keep: by induction on the tree, what is plugged into
a block may be relied on, and comments, templates and the code of the next statement change nothing
about it. -/

namespace BlockScript

open Text (markTail prefixLines getLast?_markTail markTail_eq_nil_iff)

/-! Comment lines end with a newline, so code may follow them. -/

theorem endsApart_prefixLines {text : String} (mark : String) (h : endsApart text.toList = true) :
    endsApart (prefixLines text mark).toList = true := by
  unfold prefixLines
  split
  · rfl
  · next hne =>
      have hmark : markTail mark.toList text.toList ≠ [] :=
        (markTail_eq_nil_iff _ _).not.mpr hne
      rw [String.toList_ofList, endsApart, List.getLast?_append_of_ne_nil _ hmark,
        getLast?_markTail]
      exact h

namespace Surface
variable {s : Surface} {text : String}

theorem IsStatements.prefixLines {mark : String} (h : s.IsStatements text)
    (margin : IsMargin s.modules mark) : s.IsStatements (Text.prefixLines text mark) :=
  ⟨h.whole.prefixLines margin, h.closed.imp_right (endsApart_prefixLines mark)⟩

theorem isMargin_commentMark (kind : Kind) : IsMargin s.modules (commentMark kind) := by
  unfold commentMark
  split <;> exact .inr (IsInert.of_all (by decide))

/-- Lines, each with a newline behind it. -/
theorem isStatements_joinLines {ls : List String}
    (h : ∀ line ∈ ls, MentionsOnly s.modules .whole line) :
    s.IsStatements (Text.joinLines (ls ++ [""])) := by
  induction ls with
  | nil => exact .empty
  | cons first rest ih =>
      have tail := ih fun line hl => h line (List.mem_cons_of_mem _ hl)
      have line : s.IsStatements (first ++ "\n") := by
        refine IsStatements.of_append ?_ rfl (by decide)
        simp (disch := (apply joins_of_chars rfl; decide)) [h first List.mem_cons_self]
      rw [List.cons_append, Text.joinLines_cons first (List.concat_ne_nil "" rest)]
      exact line.append tail

end Surface

section Remarks
variable {s : Scope}

theorem isStatements_ownRemarkLines {n : Node} (plain : n.Plain s.texts) (kind : Kind) :
    s.IsStatements (ownRemarkLines kind n) := by
  unfold ownRemarkLines
  split
  · exact .empty
  · next remark h =>
      have line : s.IsStatements (remark ++ "\n") := by
        refine Surface.IsStatements.of_append ?_ rfl (by decide)
        simp (disch := (apply joins_of_chars rfl; decide)) [(plain.remark remark h).mono s.allowed]
      exact line.prefixLines (Surface.isMargin_commentMark kind)

theorem isStatements_valueRemarkLines {b : Block} (plain : ∀ n ∈ b.walk, n.Plain s.texts) :
    s.IsStatements (valueRemarkLines b) := by
  have remarks : ∀ remark ∈ b.remarks, MentionsOnly s.modules .whole remark := by
    intro remark hr
    obtain ⟨n, hn, own⟩ := List.mem_filterMap.mp hr
    exact ((plain n hn).remark remark own).mono s.allowed
  unfold valueRemarkLines
  split
  · exact .empty
  · exact (Surface.isStatements_joinLines remarks).prefixLines (.inr (IsInert.of_all (by decide)))

theorem isStatements_remarkLines {n : Node} {values : List (String × Block)} (kind : Kind)
    (plain : n.Plain s.texts)
    (below : ∀ input ∈ values, ∀ m ∈ input.2.walk, m.Plain s.texts) :
    s.IsStatements (remarkLines kind n values) := by
  have grows : ∀ (front : String), s.IsStatements front →
      s.IsStatements ((values.map fun input => valueRemarkLines input.2).foldl (· ++ ·) front) := by
    induction values with
    | nil => exact fun front h => h
    | cons input rest ih =>
        intro front h
        refine ih (fun i hi => below i (List.mem_cons_of_mem _ hi)) _ ?_
        exact h.append (isStatements_valueRemarkLines (below input List.mem_cons_self))
  exact (isStatements_ownRemarkLines plain kind).append (grows "" .empty)

end Remarks

/-- What a block leaves at a place. Only a value that is plugged in need be an expression: there
may be comments in front of another. -/
def Surface.IsResult (s : Surface) (place : Place) : Emitted → Prop
  | .value code _ => (place = .value → s.IsExpression code) ∧ MentionsOnly s.modules .whole code
  | .statement code => s.IsStatements code
  | .nothing => True

section Places
variable {s : Scope} {o : Options}

theorem tidy_valueCode {child : Node} (plain : child.Plain s.texts) (level : Precedence)
    {emitted : Emitted} (h : s.IsResult .value emitted) :
    (valueCode child level emitted).Honours s.tidy (fun _ => []) fun code =>
      ∀ text ∈ code, s.IsExpression text := by
  cases emitted with
  | value code inner =>
      refine Pass.Honours.pure fun text ht => ?_
      split at ht
      · simp at ht
      · obtain rfl := Option.some.inj ht
        exact (h.1 rfl).wrap inner level
  | nothing => exact Pass.Honours.pure nofun
  | statement code =>
      refine Pass.Honours.fail ?_
      change MentionsOnly _ _ (GenerateError.message (.expectedValue _ _))
      unfold GenerateError.message
      simp (disch := (apply joins_of_chars rfl; decide)) [plain.id, plain.kindName]

theorem tidy_chainCode {first : Node} (plain : first.Plain s.texts) {emitted : Emitted}
    (h : s.IsResult .statement emitted) :
    (chainCode first emitted).Honours s.tidy (fun _ => []) s.IsStatements := by
  cases emitted with
  | value code level =>
      refine Pass.Honours.fail ?_
      change MentionsOnly _ _ (GenerateError.message (.expectedStatement _ _))
      unfold GenerateError.message
      simp (disch := (apply joins_of_chars rfl; decide)) [plain.id, plain.kindName]
  | nothing => exact Pass.Honours.pure .empty
  | statement code => exact Pass.Honours.pure h

theorem isStatements_withTemplates (quiet : o.Quiet s.modules) (kind : Kind) (n : Node)
    {code : String} (h : s.IsStatements code) : s.IsStatements (withTemplates o kind n code) := by
  unfold withTemplates
  split
  · exact h
  · rcases quiet.templates with all | none
    · exact ⟨.of_all all .whole _, .inl all⟩
    · simpa [none n.id] using h

theorem tidy_surround (quiet : o.Quiet s.modules) {remarks : String} (hr : s.IsStatements remarks)
    {next : Option (Pass String)} {record : Option (Ledger → List Event)} {alone : Bool}
    (following : (followingCode alone next).Honours s.tidy (followingEvents alone record)
      s.IsStatements) (kind : Kind) (n : Node) (place : Place) {emitted : Emitted}
    (h : s.IsLeftBy kind emitted) :
    (surround o kind n remarks next place alone emitted).Honours s.tidy
      (surroundEvents alone record emitted) (s.IsResult place) := by
  have atPlace : s.IsStatements (remarksAt place remarks) := by
    unfold remarksAt
    split
    · exact .empty
    · exact hr
  cases emitted with
  | value code level =>
      refine Pass.Honours.pure ⟨?_, atPlace.append_iff.mpr (Surface.IsExpression.whole h)⟩
      rintro rfl
      rw [remarksAt, String.empty_append]
      exact h
  | statement code =>
      refine following.andThen_quiet fun code' hc => Pass.Honours.pure ?_
      exact (atPlace.append (isStatements_withTemplates quiet kind n h)).append hc
  | nothing => exact Pass.Honours.pure trivial

end Places

/-- Is a node that of a definition, and not disabled? -/
def Node.Defines (n : Node) : Prop :=
  n.disabled = false ∧
    ∃ kind, Kind.ofTypeName? n.kindName = some kind ∧ kind.isProcedureDefinition = true

instance : DecidablePred Node.Defines := fun n =>
  decidable_of_iff (n.disabled = false ∧
    (Kind.ofTypeName? n.kindName).any Kind.isProcedureDefinition = true) (by
      unfold Node.Defines
      cases Kind.ofTypeName? n.kindName <;> simp)

/-- Does a block drop the quotes of the code in an input? -/
def Node.DropsQuotes (n : Node) (input : String) : Prop :=
  (∃ kind, Kind.ofTypeName? n.kindName = some kind ∧ kind.callsWidget = true) ∧
    Names.safeName (n.fieldText "NAME") = Template.listenerName ∧ input = "ARG2"

/-- Is a block somewhere in another one? -/
inductive Block.IsPart (part : Block) : Block → Prop
  | self : IsPart part part
  | value {b child : Block} {input : String} (h : (input, child) ∈ b.values)
      (below : IsPart part child) : IsPart part b
  | statement {b child : Block} {input : String} (h : (input, child) ∈ b.statements)
      (below : IsPart part child) : IsPart part b
  | next {b child : Block} (h : b.next = some child) (below : IsPart part child) : IsPart part b

/-- Where every module may be mentioned, all texts are plain. -/
theorem Node.Plain.of_all {F : Module → Prop} (all : ∀ m, F m) (n : Node) : n.Plain F where
  id := .of_all all _ _
  kindName := .of_all all _ _
  fields _ := .of_all all _ _
  arguments _ _ := .of_all all _ _
  remark _ _ := .of_all all _ _

/-- The scope of code that loses its quotes. -/
def Scope.bare (s : Scope) : Scope := { s with view := .unquoted }

/-- The scope of the script of a block. -/
def Scope.within (s : Scope) (n : Node) : Scope := { s with strict := n.DropsQuotes }

namespace Block
variable {s : Scope} {o : Options}

theorem mem_walk_of_value {b child : Block} {input : String} (h : (input, child) ∈ b.values)
    {n : Node} (hn : n ∈ child.walk) : n ∈ b.walk := by
  rw [walk_eq, walkInputs_eq]
  refine List.mem_cons_of_mem _ (List.mem_append_left _ ?_)
  exact List.mem_flatMap.mpr ⟨_, h, hn⟩

theorem mem_walk_of_statement {b child : Block} {input : String}
    (h : (input, child) ∈ b.statements) {n : Node} (hn : n ∈ child.walk) : n ∈ b.walk := by
  rw [walk_eq, walkInputs_eq b.statements]
  refine List.mem_cons_of_mem _ (List.mem_append_right _ (List.mem_append_left _ ?_))
  exact List.mem_flatMap.mpr ⟨_, h, hn⟩

theorem mem_walk_of_next {b child : Block} (h : b.next = some child) {n : Node}
    (hn : n ∈ child.walk) : n ∈ b.walk := by
  rw [walk_eq, h]
  exact List.mem_cons_of_mem _ (List.mem_append_right _ (List.mem_append_right _ hn))

theorem IsPart.mem_walk {part b : Block} (h : part.IsPart b) {n : Node} (hn : n ∈ part.walk) :
    n ∈ b.walk := by
  induction h with
  | self => exact hn
  | value h _ ih => exact mem_walk_of_value h ih
  | statement h _ ih => exact mem_walk_of_statement h ih
  | next h _ ih => exact mem_walk_of_next h ih

/-- What is known of the nodes of a block that is to be rendered tidily. -/
structure Sound (s : Scope) (b : Block) : Prop where
  plain : ∀ n ∈ b.walk, n.Plain s.texts
  entries : ∀ n ∈ b.walk, n.PlainEntry s.texts s.view
  listeners : ∀ call : Block, call.IsPart b → ∀ input child, (input, child) ∈ call.values →
    call.node.DropsQuotes input → ∀ n ∈ child.walk, n.PlainEntry s.texts .unquoted
  defines : ∀ n ∈ b.walk, n.Defines → s.defines

namespace Sound
variable {b child : Block}

theorem node (sound : b.Sound s) : b.node.Plain s.texts :=
  sound.plain b.node b.node_mem_walk

theorem below (sound : b.Sound s) (walk : ∀ n ∈ child.walk, n ∈ b.walk)
    (parts : ∀ {part : Block}, part.IsPart child → part.IsPart b) : child.Sound s where
  plain n hn := sound.plain n (walk n hn)
  entries n hn := sound.entries n (walk n hn)
  listeners call part := sound.listeners call (parts part)
  defines n hn := sound.defines n (walk n hn)

theorem value (sound : b.Sound s) {input : String} (h : (input, child) ∈ b.values) :
    child.Sound s :=
  sound.below (fun _ hn => mem_walk_of_value h hn) (.value h)

theorem statement (sound : b.Sound s) {input : String} (h : (input, child) ∈ b.statements) :
    child.Sound s :=
  sound.below (fun _ hn => mem_walk_of_statement h hn) (.statement h)

theorem next (sound : b.Sound s) (h : b.next = some child) : child.Sound s :=
  sound.below (fun _ hn => mem_walk_of_next h hn) (.next h)

/-- What is plugged into an input whose quotes are dropped may lose them. -/
theorem bare (sound : b.Sound s) {input : String} (h : (input, child) ∈ b.values)
    (drops : b.node.DropsQuotes input) : child.Sound s.bare :=
  { sound.value h with entries := sound.listeners b .self input child h drops }

/-- Where every module may be mentioned, it is enough that definitions are allowed. -/
theorem of_all (all : ∀ m, s.texts m) (defines : ∀ n ∈ b.walk, n.Defines → s.defines) :
    b.Sound s where
  plain n _ := .of_all all n
  entries _ _ _ := .of_all all _ _
  listeners _ _ _ _ _ _ _ _ _ := .of_all all _ _
  defines := defines

end Sound

/-- A chain whose first block leaves a statement leaves statements. -/
theorem tidy_renderChain {first : Block} (sound : first.Sound s)
    (h : (first.render o .statement false).Honours s.tidy (first.events o false)
      (s.IsResult .statement)) :
    (renderChain o first).Honours s.tidy (first.events o false) s.IsStatements :=
  h.andThen_quiet fun _ left => tidy_chainCode sound.node left

/-- The code in a value input is as the script may rely on it. -/
theorem tidy_valueIn {n child : Node} {step : Pass Emitted} {record : Ledger → List Event}
    {input : String} {level : Precedence} (plain : child.Plain s.texts)
    (tidy : step.Honours s.tidy record (s.IsResult .value))
    (bare : n.DropsQuotes input → step.Honours s.bare.tidy record (s.bare.IsResult .value)) :
    (step.andThen (valueCode child level)).Honours (s.within n).tidy record fun code =>
      ∀ text ∈ code, (s.within n).tidy.value input text := by
  by_cases drops : n.DropsQuotes input
  · have expression := (bare drops).andThen_quiet fun _ left =>
      tidy_valueCode (s := s.bare) plain level left
    refine (expression.of_contract (s.within n).tidy rfl rfl rfl).mono ?_
    intro code known text ht
    have seen : MentionsOnly s.modules .unquoted text := (known text ht).seen
    exact ⟨⟨(known text ht).nonempty, seen.view s.view⟩, fun _ => seen⟩
  · have expression := tidy.andThen_quiet fun _ left => tidy_valueCode plain level left
    refine (expression.of_contract (s.within n).tidy rfl rfl rfl).mono ?_
    intro code known text ht
    exact ⟨known text ht, fun strict => absurd strict drops⟩

/-- If the blocks in the inputs of a block are tidy, its script may rely on them. -/
theorem tidy_holds (quiet : o.Quiet s.modules) {n : Node}
    {values statements : List (String × Block)} {remarks : String} (hr : s.IsStatements remarks)
    (hv : ∀ input child, (input, child) ∈ values → child.node.Plain s.texts ∧
      (child.render o .value true).Honours s.tidy (child.events o true) (s.IsResult .value) ∧
      (n.DropsQuotes input → (child.render o .value true).Honours s.bare.tidy
        (child.events o true) (s.bare.IsResult .value)))
    (hs : ∀ input child, (input, child) ∈ statements → child.Sound s ∧
      (child.render o .statement false).Honours s.tidy (child.events o false)
        (s.IsResult .statement)) :
    (s.within n).tidy.Holds o ⟨remarks, renderValues o values, renderStatements o statements⟩
      ⟨inputEvents o true values, inputEvents o false statements⟩ := by
  constructor
  · exact hr
  · intro input level ledger
    simp only [eventsIn, Surroundings.valueIn, get?_inputEvents, get?_renderValues]
    cases hc : Table.get? values input with
    | none => exact Pass.Honours.pure (by simp) ledger
    | some child =>
        obtain ⟨plain, tidy, bare⟩ := hv input child (Table.mem_of_get? hc)
        exact tidy_valueIn plain tidy bare ledger
  · intro input ledger
    simp only [eventsIn, Surroundings.bodyIn, get?_inputEvents, get?_renderStatements]
    cases hc : Table.get? statements input with
    | none => exact Pass.Honours.pure MentionsOnly.empty ledger
    | some child =>
        obtain ⟨sound, tidy⟩ := hs input child (Table.mem_of_get? hc)
        have body := (tidy_renderChain sound tidy).andThen_quiet fun code hcode =>
          Pass.Honours.pure (c := s.tidy) (hcode.whole.prefixLines quiet.margin)
        exact body.of_contract (s.within n).tidy rfl rfl rfl ledger

/-- If the next block is tidy, so is the code that follows. -/
theorem tidy_following {next : Option Block}
    (h : ∀ child ∈ next, child.Sound s ∧
      (child.render o .statement false).Honours s.tidy (child.events o false)
        (s.IsResult .statement)) (alone : Bool) :
    (followingCode alone (renderNext o next)).Honours s.tidy
      (followingEvents alone (nextEvents o next)) s.IsStatements := by
  rw [nextEvents_eq, renderNext_eq]
  cases alone with
  | true => exact Pass.Honours.pure .empty
  | false =>
      cases next with
      | none => exact Pass.Honours.pure .empty
      | some child => exact tidy_renderChain (h child rfl).1 (h child rfl).2

/-- A disabled block leaves what follows it. -/
theorem tidy_skipDisabled {next : Option (Pass String)}
    {record : Option (Ledger → List Event)} {alone : Bool}
    (following : (followingCode alone next).Honours s.tidy (followingEvents alone record)
      s.IsStatements) (place : Place) :
    (skipDisabled alone next).Honours s.tidy (followingEvents alone record)
      (s.IsResult place) := by
  unfold skipDisabled
  unfold followingCode at following
  split
  · exact following.andThen_quiet fun code hc => Pass.Honours.pure hc
  · intro ledger fits relied
    obtain ⟨owed, -, -⟩ := following ledger fits relied
    exact ⟨owed, fits, trivial⟩

/-- The script of a block is tidy if its inputs are. -/
theorem tidy_run (quiet : o.Quiet s.modules) {b : Block} {kind : Kind} (sound : b.Sound s)
    (on : b.node.disabled = false) (known : Kind.ofTypeName? b.node.kindName = some kind)
    {around : Surroundings} {records : Records}
    (holds : (s.within b.node).tidy.Holds o around records) :
    ((kind.script o b.node).run o around).Honours s.tidy
      ((kind.script o b.node).events o around records) (s.IsLeftBy kind) := by
  have entry : kind = .field → MentionsOnly s.modules s.view (b.node.fieldText "NAME") := by
    rintro rfl
    exact (sound.entries b.node b.node_mem_walk known).mono s.allowed
  have script := tidy_script (s := s.within b.node) quiet sound.node kind entry
    (fun calls listener => ⟨⟨kind, known, calls⟩, listener, rfl⟩)
    fun definition => sound.defines b.node b.node_mem_walk ⟨on, kind, known, definition⟩
  exact (script.run holds).of_contract s.tidy rfl rfl rfl

theorem isStatements_ownRemarks {b : Block} (sound : b.Sound s) (kind : Kind) :
    s.IsStatements (remarkLines kind b.node b.values) :=
  isStatements_remarkLines kind sound.node fun _ hi => (sound.value hi).plain

/-- Every block is tidy, wherever it stands. -/
theorem tidy (quiet : o.Quiet s.modules) (b : Block) (sound : b.Sound s) (place : Place)
    (alone : Bool) :
    (b.render o place alone).Honours s.tidy (b.events o alone) (s.IsResult place) := by
  induction b generalizing s place alone with
  | mk node values statements next ihv ihs ihn =>
      have following := tidy_following fun child hc =>
        ⟨sound.next hc, ihn child hc quiet (sound.next hc) _ _⟩
      rw [events_eq, render_eq]
      unfold renderNode nodeEvents
      by_cases hd : node.disabled = true
      · simp only [if_pos hd]
        exact tidy_skipDisabled (following alone) place
      · simp only [if_neg hd]
        cases known : Kind.ofTypeName? node.kindName with
        | none =>
            refine Pass.Honours.fail ?_
            change MentionsOnly _ _ (GenerateError.message (.unknownKind _ _))
            unfold GenerateError.message
            simp (disch := (apply joins_of_chars rfl; decide))
              [sound.node.id, sound.node.kindName]
        | some kind =>
            have remarks := isStatements_ownRemarks sound kind
            have holds := tidy_holds quiet remarks
              (fun input child hi => ⟨(sound.value hi).node,
                ihv (input, child) hi quiet (sound.value hi) _ _,
                fun drops => ihv (input, child) hi (s := s.bare) quiet (sound.bare hi drops) _ _⟩)
              (fun input child hi => ⟨sound.statement hi,
                ihs (input, child) hi quiet (sound.statement hi) _ _⟩)
            have script := tidy_run quiet sound (eq_false_of_ne_true hd) known holds
            exact script.andThen fun emitted left =>
              tidy_surround quiet remarks (following alone) kind node place left

/-- The script of every block is tidy. -/
theorem tidy_ownRun (quiet : o.Quiet s.modules) {b : Block} {kind : Kind} (sound : b.Sound s)
    (on : b.node.disabled = false) (known : Kind.ofTypeName? b.node.kindName = some kind) :
    ((kind.script o b.node).run o ⟨remarkLines kind b.node b.values, renderValues o b.values,
      renderStatements o b.statements⟩).Honours s.tidy
        ((kind.script o b.node).events o ⟨remarkLines kind b.node b.values,
          renderValues o b.values, renderStatements o b.statements⟩
          ⟨inputEvents o true b.values, inputEvents o false b.statements⟩) (s.IsLeftBy kind) :=
  tidy_run quiet sound on known (tidy_holds quiet (isStatements_ownRemarks sound kind)
    (fun _ child hi => ⟨(sound.value hi).node, child.tidy quiet (sound.value hi) _ _,
      fun drops => child.tidy (s := s.bare) quiet (sound.bare hi drops) _ _⟩)
    fun _ child hi => ⟨sound.statement hi, child.tidy quiet (sound.statement hi) _ _⟩)

/-! What a block defines, whatever its texts are. -/

/-- A scope where every text is plain, with the procedures that some events name. -/
def definitionScope (events : List Event) (defines : Prop) : Scope where
  modules _ := True
  texts _ := True
  allowed _ := id
  view := .whole
  procedures given := ∃ raw, .name .procedureName raw given ∈ events
  defines := defines
  strict _ := False

/-- A block owes tidy code in a scope where every text is plain. -/
theorem owes_definitions {indent : String} {ledger : Ledger}
    (reachable : Ledger.Reachable indent ledger) (b : Block) (alone : Bool) :
    let s := definitionScope (b.events o alone ledger) (∃ n ∈ b.walk, n.Defines)
    ∀ e ∈ b.events o alone ledger, s.tidy.owes e := by
  intro s
  have all : ∀ m, s.modules m := fun _ => trivial
  have sound : b.Sound s := .of_all all fun n hn defined => ⟨n, hn, defined⟩
  have fits : s.tidy.Fits ledger :=
    ⟨reachable.derived, fun _ _ => ⟨"", MentionsOnly.of_all all _ _⟩⟩
  refine (b.tidy (.inl all) sound .top alone ledger fits fun e he => ?_).1
  exact Scope.tidy_relies (fun m _ => all m) fun raw given heq => ⟨raw, heq ▸ he⟩

/-- A block defines nothing but procedures that it names and handlers of widgets that it names,
and only if there is a definition in it. -/
theorem defines_routines {indent : String} {ledger : Ledger}
    (reachable : Ledger.Reachable indent ledger) {b : Block} {alone : Bool} {key code : String}
    (h : .define key code ∈ b.events o alone ledger) :
    (∃ n ∈ b.walk, n.Defines) ∧
      (definitionScope (b.events o alone ledger) True).IsRoutineKey key := by
  have owed := owes_definitions reachable b alone _ h
  exact ⟨owed.1, owed.2.1⟩

/-- Names are declared before blocks are rendered, and not by blocks. -/
theorem declares_nothing {indent : String} {ledger : Ledger}
    (reachable : Ledger.Reachable indent ledger) {b : Block} {alone : Bool} {key code : String} :
    .declare key code ∉ b.events o alone ledger :=
  fun h => owes_definitions reachable b alone _ h

end Block

end BlockScript
