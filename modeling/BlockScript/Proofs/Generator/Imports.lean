import BlockScript.Proofs.Generator.Helpers
import BlockScript.Proofs.Names.FirstCome
import BlockScript.Proofs.Template.TidyHelpers

/-! # Imports cover the code

Code that mentions a module comes from a block or from a helper, and who brings it in asks for its
module as well. If the texts of the user mention no module, everything that a program mentions is
imported. -/

namespace BlockScript

open Ledger

namespace Ledger
variable {indent : String} {ledger after : Ledger} {e : Event} {events : List Event}

/-! Whatever is asked for is imported, and stays so. -/

/-- Only a request for a module changes the imports. -/
theorem Step.imports_eq (h : Step indent ledger e after) (other : ∀ m, e ≠ .require m) :
    after.definitions.imports = ledger.definitions.imports := by
  cases h with
  | name category raw => rw [getName_definitions]
  | helper h =>
      rw [provide_definitions]
      split <;> rfl
  | require m => exact absurd rfl (other m)
  | temporary | declare | define | clearWidgets | addWidget => rfl

/-- Every import is that of a module. -/
def ImportsModules (ledger : Ledger) : Prop :=
  ∀ e ∈ ledger.definitions.imports, ∃ m : Module, e = (m.key, m.code)

theorem ImportsModules.step (imports : ImportsModules ledger) (h : Step indent ledger e after) :
    ImportsModules after := by
  by_cases required : ∃ m, e = .require m
  · obtain ⟨m, rfl⟩ := required
    cases h
    intro e he
    rcases Table.mem_of_mem_putNew he with rfl | he
    · exact ⟨m, rfl⟩
    · exact imports e he
  · have same := h.imports_eq fun m heq => required ⟨m, heq⟩
    unfold ImportsModules
    rwa [same]

theorem Step.keeps_import (h : Step indent ledger e after) {key : String}
    (known : key ∈ Table.keys ledger.definitions.imports) :
    key ∈ Table.keys after.definitions.imports := by
  by_cases required : ∃ m, e = .require m
  · obtain ⟨m, rfl⟩ := required
    cases h
    exact Table.mem_keys_putNew known _ _
  · rwa [h.imports_eq fun m heq => required ⟨m, heq⟩]

theorem Steps.imports_required (h : Steps indent ledger events after) {m : Module}
    (required : .require m ∈ events) : m.key ∈ Table.keys after.definitions.imports := by
  induction h with
  | refl => exact absurd required List.not_mem_nil
  | cons head tail ih =>
      rcases List.mem_cons.mp required with rfl | required
      · cases head
        exact tail.keeps (fun head known => head.keeps_import known)
          (Table.mem_keys_putNew_self _ _ _)
      · exact ih required

/-- The import of a module that was asked for is there, with its own code. -/
theorem Steps.get?_import (h : Steps indent {} events after) {m : Module}
    (required : .require m ∈ events) :
    after.definitions.imports.get? m.key = some m.code := by
  have imports : ImportsModules after :=
    h.keeps (fun head imports => imports.step head) fun e he => absurd he List.not_mem_nil
  have known := h.imports_required required
  rcases found : after.definitions.imports.get? m.key with none | code
  · exact absurd known ((Table.get?_eq_none_iff _ _).mp found)
  · obtain ⟨m', heq⟩ := imports _ (Table.mem_of_get? found)
    obtain ⟨hkey, rfl⟩ := Prod.mk.inj heq
    have same : m = m' := by
      cases m <;> cases m' <;> first | rfl | exact absurd hkey (by decide)
    rw [same]

end Ledger

/-! Definitions mention what their events do. -/

/-- What an event writes among the definitions mentions some modules only. -/
def Event.WritesOnly (F : Module → Prop) : Event → Prop
  | .helper h _ => ∀ line ∈ h.template, MentionsOnly F .whole line
  | .declare _ code | .define _ code => MentionsOnly F .whole code
  | _ => True

namespace Ledger
variable {indent : String} {ledger after : Ledger} {e : Event} {events : List Event}
  {F : Module → Prop}

/-- All definitions mention some modules only. -/
def DefinesOnly (F : Module → Prop) (ledger : Ledger) : Prop :=
  ∀ code ∈ ledger.definitions.definitions.values, MentionsOnly F .whole code

theorem DefinesOnly.step (clean : DefinesOnly F ledger) (margin : IsMargin F indent)
    (h : Step indent ledger e after) (writes : e.WritesOnly F) : DefinesOnly F after := by
  intro code hc
  cases h with
  | name category raw =>
      rw [getName_definitions] at hc
      exact clean code hc
  | helper h =>
      rw [provide_definitions] at hc
      split at hc
      · exact clean code hc
      · rcases Table.mem_values_of_mem_put hc with rfl | hc
        · have name := mentionsOnly_of_isMadeOf_key (F := F) (ledger.names.isMadeOf_fresh h.key)
          exact mentionsOnly_helperCode writes name margin
        · exact clean code hc
  | declare key own =>
      obtain ⟨entry, he, rfl⟩ := List.mem_map.mp hc
      rcases Table.mem_of_mem_putNew he with rfl | he
      · exact writes
      · exact clean _ (List.mem_map_of_mem he)
  | define key own =>
      rcases Table.mem_values_of_mem_put hc with rfl | hc
      · exact writes
      · exact clean code hc
  | temporary | require | clearWidgets | addWidget => exact clean code hc

theorem DefinesOnly.steps (clean : DefinesOnly F ledger) (margin : IsMargin F indent)
    (h : Steps indent ledger events after) (writes : ∀ e ∈ events, e.WritesOnly F) :
    DefinesOnly F after := by
  induction h with
  | refl => exact clean
  | cons head tail ih =>
      obtain ⟨first, rest⟩ := List.forall_mem_cons.mp writes
      exact ih (clean.step margin head first) rest

end Ledger

/-! The lines of a pass. -/

section Lines
variable {s : Scope} {o : Options}

/-- A scope with more modules. -/
def Scope.allowing (s : Scope) (more : Module → Prop) : Scope :=
  { s with
    modules := fun m => s.modules m ∨ more m
    allowed := fun m hm => .inl (s.allowed m hm) }

theorem Options.Quiet.mono {F G : Module → Prop} (quiet : o.Quiet F) (le : ∀ m, F m → G m) :
    o.Quiet G :=
  quiet.imp_left fun all m => le m (all m)

theorem mentionsOnly_lineOf {emitted : Emitted} (h : s.IsResult .top emitted) :
    ∀ line ∈ Block.lineOf emitted, MentionsOnly s.modules .whole line := by
  intro line hl
  cases emitted with
  | value code level =>
      rw [Block.lineOf, Option.mem_def] at hl
      split at hl
      · contradiction
      · obtain rfl := Option.some.inj hl
        simp (disch := (apply joins_of_chars rfl; decide)) [h.2]
  | statement code =>
      rw [Block.lineOf, Option.mem_def] at hl
      split at hl
      · contradiction
      · exact Option.some.inj hl ▸ h.whole
  | nothing => exact absurd hl (by simp [Block.lineOf])

/-- A block at the top keeps the contract, whether it fails or not. -/
theorem Block.tidy_renderTop (quiet : o.Quiet s.modules) {b : Block} (sound : b.Sound s) :
    (b.renderTop o).Honours s.tidy (b.events o false) fun line =>
      ∀ text ∈ line, MentionsOnly s.modules .whole text :=
  (b.tidy quiet sound .top false).andThen_quiet fun _ left =>
    Pass.Honours.pure (mentionsOnly_lineOf left)

/-- The error of a block shows no more than texts of the user, whatever the block asked for before
it failed. -/
theorem Block.tidy_error (quiet : o.Quiet s.modules) {b : Block} (sound : b.Sound s)
    (procedures : ∀ name, s.procedures name) {ledger : Ledger} (fits : s.tidy.Fits ledger)
    {error : GenerateError} (h : (b.renderTop o ledger).1 = .error error) :
    MentionsOnly s.texts .whole error.message := by
  let wide := s.allowing fun m => .require m ∈ b.events o false ledger
  have sound' : b.Sound wide := ⟨sound.plain, sound.entries, sound.listeners, sound.defines⟩
  have fits' : wide.tidy.Fits ledger := by
    refine ⟨fits.derived, fun code hc => ?_⟩
    obtain ⟨widget, owed⟩ := fits.made code hc
    exact ⟨widget, MentionsOnly.mono owed fun m hm => .inl hm⟩
  have quiet' : o.Quiet wide.modules := quiet.mono fun m hm => .inl hm
  have relied : ∀ e ∈ b.events o false ledger, wide.tidy.relies e := by
    intro e he
    refine Scope.tidy_relies ?_ fun _ given _ => procedures given
    rintro m rfl
    exact .inr he
  have outcome := (Block.tidy_renderTop quiet' sound' ledger fits' relied).2.2
  rw [h] at outcome
  exact outcome

/-- The lines of a pass mention what is imported, and its events keep their side. -/
theorem mentionsOnly_renderAll (quiet : o.Quiet s.modules) (procedures : ∀ name, s.procedures name)
    {blocks : List Block} (sound : ∀ b ∈ blocks, b.Sound s) {ledger final : Ledger}
    {harvest : Harvest} (fits : s.tidy.Fits ledger)
    (imported : ∀ m, .require m ∈ passEvents o blocks ledger → s.modules m)
    (h : renderAll o blocks ledger = (.ok harvest, final)) :
    (∀ line ∈ harvest.lines, MentionsOnly s.modules .whole line) ∧
      ∀ e ∈ passEvents o blocks ledger, s.tidy.owes e := by
  induction blocks generalizing ledger harvest with
  | nil =>
      obtain ⟨hharvest, -⟩ := Prod.mk.inj h
      obtain rfl := Except.ok.inj hharvest
      exact ⟨fun line hl => absurd hl List.not_mem_nil, fun e he => absurd he List.not_mem_nil⟩
  | cons b rest ih =>
      obtain ⟨soundFirst, soundRest⟩ := List.forall_mem_cons.mp sound
      rcases hb : b.renderTop o ledger with ⟨error | line, mid⟩
      · cases policy : o.errorPolicy with
        | abort => simp [renderAll, hb, policy] at h
        | comment =>
            obtain ⟨tail, hrest, rfl⟩ := (renderAll_cons_eq_ok_of_error policy hb).mp h
            simp only [passEvents, hb, policy] at imported ⊢
            obtain ⟨lines, owed⟩ := ih soundRest fits imported hrest
            have shown := Block.tidy_error quiet soundFirst procedures fits (congrArg Prod.fst hb)
            refine ⟨List.forall_mem_cons.mpr ⟨?_, lines⟩, owed⟩
            simp (disch := (apply joins_of_chars rfl; decide)) [shown.mono s.allowed]
      · obtain ⟨tail, hrest, rfl⟩ := (renderAll_cons_eq_ok_of_ok hb).mp h
        simp only [passEvents, hb] at imported ⊢
        have relied : ∀ e ∈ b.events o false ledger, s.tidy.relies e := fun e he =>
          Scope.tidy_relies (fun m heq => imported m (List.mem_append_left _ (heq ▸ he)))
            fun _ given _ => procedures given
        obtain ⟨owedFirst, fits', outcome⟩ :=
          Block.tidy_renderTop quiet soundFirst ledger fits relied
        rw [hb] at fits' outcome
        obtain ⟨lines, owed⟩ :=
          ih soundRest fits' (fun m hm => imported m (List.mem_append_right _ hm)) hrest
        constructor
        · intro text ht
          rcases List.mem_append.mp ht with ht | ht
          · exact outcome text (Option.mem_toList.mp ht)
          · exact lines text ht
        · intro e he
          rcases List.mem_append.mp he with he | he
          · exact owedFirst e he
          · exact owed e he

end Lines

/-! The declaration of the variables. -/

theorem Ledger.isMadeOf_of_mem_getNames {ledger : Ledger} (derived : ledger.Derived)
    {category : NameCategory} {raws : List String} {name : String}
    (h : name ∈ (ledger.getNames category raws).1) : ∃ raw ∈ raws, Names.IsMadeOf raw name := by
  induction raws generalizing ledger with
  | nil => exact absurd h List.not_mem_nil
  | cons raw rest ih =>
      obtain ⟨made, derived'⟩ := derived.getName category raw
      rcases List.mem_cons.mp h with rfl | h
      · exact ⟨raw, List.mem_cons_self, made⟩
      · obtain ⟨other, ho, made⟩ := ih derived' h
        exact ⟨other, List.mem_cons_of_mem _ ho, made⟩

@[simp] theorem Ledger.getNames_widgets (ledger : Ledger) (category : NameCategory)
    (raws : List String) : (ledger.getNames category raws).2.widgets = ledger.widgets := by
  induction raws generalizing ledger with
  | nil => rfl
  | cons raw rest ih => exact ih _

theorem Ledger.declareNames_widgets (nodes : List Node) :
    (declareNames {} nodes).widgets = [] := by
  let first := getNames {} .variableName (variableNames nodes)
  let second := first.2.getNames .procedureName (definedNames nodes)
  have none : second.2.widgets = [] := by
    rw [getNames_widgets, getNames_widgets]
  change (if first.1.isEmpty then second.2 else second.2.addDefinition _ _).widgets = []
  split <;> exact none

/-- The variables are declared under their names, which are made of texts of the user. -/
theorem declareEvents_writeOnly {F : Module → Prop} {nodes : List Node}
    (plain : ∀ n ∈ nodes, n.Plain F) : ∀ e ∈ declareEvents nodes, e.WritesOnly F := by
  intro e he
  rcases mem_declareEvents he with ⟨category, raw, given, rfl⟩ | rfl
  · trivial
  · have names : ∀ name ∈ (getNames {} .variableName (variableNames nodes)).1,
        MentionsOnly F .whole name := by
      intro name hn
      obtain ⟨raw, hraw, i, rfl⟩ := isMadeOf_of_mem_getNames .empty hn
      obtain ⟨n, hmem, named⟩ := mem_variableNames.mp hraw
      exact ((plain n hmem).fields (Node.field_of_namedVariable named)).to_whole.candidate i .whole
    have joined : MentionsOnly F .whole
        (", ".intercalate (getNames {} .variableName (variableNames nodes)).1) :=
      (MentionsOnly.intercalate_literal (joins_of_chars rfl (by decide))).mpr names
    change MentionsOnly F .whole _
    simp (disch := (apply joins_of_chars rfl; decide)) [joined]

/-- What a block owes covers what it writes. -/
theorem Event.WritesOnly.of_owes {s : Scope} {e : Event} (h : s.tidy.owes e) :
    e.WritesOnly s.modules := by
  cases e with
  | helper helper given => exact h
  | declare key code => exact h.elim
  | define key code => exact h.2.2
  | _ => trivial

/-! The texts of the user. -/

/-- What the user wrote into a block and can find again in a program. -/
def Node.texts (n : Node) : List String :=
  n.id :: n.kindName :: (n.fields.values ++ n.mutation.args ++ n.comment.toList)

/-- A text without double quotes that mentions no module. -/
def IsModest (text : String) : Prop :=
  '"' ∉ text.toList ∧ ∀ m : Module, ¬ m.alias.toList <:+: text.toList

/-- A modest text mentions nothing, with double quotes or without. -/
theorem IsModest.mentionsOnly {F : Module → Prop} {text : String} (h : IsModest text) :
    MentionsOnly F .undoubled text := by
  have whole : View.undoubled.of text = text.toList := by
    refine List.filter_eq_self.mpr fun c hc => ?_
    have other : c ≠ '"' := fun heq => h.1 (heq ▸ hc)
    simpa [View.shows] using other
  intro m hm
  rw [whole, ← m.toList_alias] at hm
  exact absurd hm (h.2 m)

/-- Modest texts are plain, whatever may be mentioned. -/
theorem Node.Plain.of_modest {F : Module → Prop} {n : Node} (h : ∀ text ∈ n.texts, IsModest text) :
    n.Plain F := by
  have shown {text : String}
      (mem : text ∈ n.fields.values ++ n.mutation.args ++ n.comment.toList) :
      MentionsOnly F .undoubled text :=
    (h text (List.mem_cons_of_mem _ (List.mem_cons_of_mem _ mem))).mentionsOnly
  constructor
  · exact (h n.id (by simp [texts])).mentionsOnly.to_whole
  · exact (h n.kindName (by simp [texts])).mentionsOnly.to_whole
  · intro name value field
    have mem : value ∈ n.fields.values := List.mem_map_of_mem (Table.mem_of_get? field)
    exact shown (List.mem_append_left _ (List.mem_append_left _ mem))
  · intro a ha
    exact (shown (List.mem_append_left _ (List.mem_append_right _ ha))).to_whole
  · intro remark hr
    have comment : n.comment = some remark := (Option.filter_eq_some_iff.mp hr).1
    exact (shown (List.mem_append_right _ (by simp [comment]))).to_whole

theorem Node.PlainEntry.of_modest {F : Module → Prop} {n : Node}
    (h : ∀ text ∈ n.texts, IsModest text) : n.PlainEntry F .whole := fun _ =>
  ((Node.Plain.of_modest h).fieldOr "NAME" "" (joins_of_chars rfl (by decide))).to_whole

/-- The scope of a pass over modest texts: what is asked for may be mentioned. -/
def importScope (events : List Event) : Scope where
  modules m := .require m ∈ events
  texts _ := False
  allowed _ := False.elim
  view := .whole
  procedures _ := True
  defines := True
  strict _ := False

/-- Whatever a program mentions is imported, if the texts of the user mention no module and have no
double quotes. In the third input of the call that adds a listener single quotes are dropped, so
there the names of entries must mention no module without those either. -/
theorem generate_imports (g : Generator) (w : Workspace)
    (untemplated : g.options.statementPrefix = none ∧ g.options.statementSuffix = none ∧
      g.options.loopTrap = none)
    (blank : ∀ c ∈ g.options.indent.toList, c = ' ' ∨ c = '\t')
    (modest : ∀ n ∈ w.walk, ∀ text ∈ n.texts, IsModest text)
    (listeners : ∀ b ∈ w.orderedBlocks, ∀ call : Block, call.IsPart b → ∀ input child,
      (input, child) ∈ call.values → call.node.DropsQuotes input → ∀ n ∈ child.walk,
        Kind.ofTypeName? n.kindName = some .field →
          ∀ m : Module, ¬ m.alias.toList <:+: View.unquoted.of (n.fieldText "NAME"))
    {program : Program} (success : (g.generate w).1 = .ok program) (m : Module)
    (mentioned : ∃ code, (code = program.body ∨ code ∈ program.definitions.values) ∧
      m.alias.toList <:+: code.toList) :
    program.imports.get? m.key = some m.code := by
  obtain ⟨harvest, final, run, rfl, -⟩ := g.generate_eq_ok success
  let start := declareNames {} w.walk
  let events := passEvents g.options w.orderedBlocks start
  let s := importScope events
  have plain : ∀ {F : Module → Prop}, ∀ n ∈ w.walk, n.Plain F := fun n hn =>
    .of_modest (modest n hn)
  have inert : IsInert g.options.indent.toList := by
    intro c hc
    rcases blank c hc with rfl | rfl <;> rfl
  have quiet : g.options.Quiet s.modules :=
    .inr ⟨untemplated.1, untemplated.2.1, untemplated.2.2, inert⟩
  have sound : ∀ b ∈ w.orderedBlocks, b.Sound s := by
    intro b hb
    have within : ∀ n ∈ b.walk, n ∈ w.walk := fun n hn => List.mem_flatMap.mpr ⟨b, hb, hn⟩
    constructor
    · exact fun n hn => plain n (within n hn)
    · exact fun n hn => .of_modest (modest n (within n hn))
    · intro call part input child hi drops n hn entry m hm
      rw [← m.toList_alias] at hm
      exact listeners b hb call part input child hi drops n hn entry m hm
    · exact fun _ _ _ => trivial
  have reachable : Reachable g.options.indent start := reachable_declareNames g.options.indent w.walk
  have fits : s.tidy.Fits start := by
    refine ⟨reachable.derived, fun code hc => ?_⟩
    rw [declareNames_widgets] at hc
    exact absurd hc List.not_mem_nil
  obtain ⟨lines, owed⟩ :=
    mentionsOnly_renderAll quiet (fun _ => trivial) sound fits (fun _ required => required) run
  have steps : Steps g.options.indent start events final := steps_renderAll run
  have all := (steps_declareEvents g.options.indent w.walk).append steps
  have clean : DefinesOnly s.modules final := by
    refine DefinesOnly.steps (fun _ hc => absurd hc List.not_mem_nil) quiet.margin all fun e he => ?_
    rcases List.mem_append.mp he with he | he
    · exact declareEvents_writeOnly plain e he
    · exact .of_owes (owed e he)
  have body : MentionsOnly s.modules .whole ("\n".intercalate harvest.lines) :=
    (MentionsOnly.intercalate_literal (joins_of_chars rfl (by decide))).mpr lines
  have mentions : ∀ code, (code = "\n".intercalate harvest.lines ∨
      code ∈ final.definitions.definitions.values) → MentionsOnly s.modules .whole code := by
    rintro code (rfl | defined)
    · exact body
    · exact clean code defined
  obtain ⟨code, part, mention⟩ := mentioned
  rw [m.toList_alias, ← View.whole_of] at mention
  exact all.get?_import (List.mem_append_right _ (mentions code part m mention))

instance : DecidablePred IsModest := fun _ => inferInstanceAs (Decidable (_ ∧ _))

/-- The call that adds a listener, with an entry in its third input. -/
def listenerCall (entry : String) : Block :=
  { node :=
      { id := "c", kindName := "widgets_callnoreturn"
        fields := [("NAME", "sensor__new_sensor_listener")], mutation := { args := ["a", "b", "c"] } }
    values := [("ARG2", { node := { id := "f", kindName := "field", fields := [("NAME", entry)] } })] }

/-- A constant. -/
def circleNumber : Block :=
  { node := { id := "a", kindName := "math_constant", fields := [("CONSTANT", "PI")] } }

theorem generate_imports_listener :
    let g : Generator := { options := {} }
    let w : Workspace := { blocks := [circleNumber, listenerCall "it's"] }
    ∃ program, (g.generate w).1 = .ok program ∧
      Module.math.alias.toList <:+: program.body.toList ∧
      program.imports.get? Module.math.key = some Module.math.code := by
  intro g w
  have listeners : ∀ b ∈ w.orderedBlocks, ∀ call : Block, call.IsPart b → ∀ input child,
      (input, child) ∈ call.values → call.node.DropsQuotes input → ∀ n ∈ child.walk,
        Kind.ofTypeName? n.kindName = some .field →
          ∀ m : Module, ¬ m.alias.toList <:+: View.unquoted.of (n.fieldText "NAME") := by
    have quoteless : ∀ n ∈ w.walk, ∀ m : Module,
        ¬ m.alias.toList <:+: View.unquoted.of (n.fieldText "NAME") := by
      decide +kernel
    intro b hb call part input child hi _ n hn _
    have below : n ∈ b.walk := part.mem_walk (Block.mem_walk_of_value hi hn)
    exact quoteless n (List.mem_flatMap.mpr ⟨b, hb, below⟩)
  have run : (g.generate w).1.toOption.any
      (fun p => decide (Module.math.alias.toList <:+: p.body.toList)) = true := by
    decide +kernel
  obtain ⟨program, success, mentioned⟩ := exists_ok_of_any run
  have mentioned := of_decide_eq_true mentioned
  have blank : ∀ c ∈ g.options.indent.toList, c = ' ' ∨ c = '\t' := by
    have spaces : g.options.indent.toList = [' ', ' '] := by decide
    rw [spaces]
    simp
  have imported := generate_imports g w ⟨rfl, rfl, rfl⟩ blank (by decide +kernel) listeners
    success .math ⟨program.body, .inl rfl, mentioned⟩
  exact ⟨program, success, mentioned, imported⟩

/-- Single quotes are dropped, and then the name of an entry mentions a module that nothing asked
for. -/
theorem generate_imports_dropsQuotes :
    let w : Workspace := { blocks := [listenerCall "Ma'th."] }
    (∀ n ∈ w.walk, ∀ text ∈ n.texts, IsModest text) ∧
      ∃ program, generate {} w = .ok program ∧
        "Math.".toList <:+: program.body.toList ∧
        Module.math.key ∉ program.imports.keys := by
  intro w
  have run : (generate {} w).toOption.any (fun p =>
      decide ("Math.".toList <:+: p.body.toList) && decide (Module.math.key ∉ p.imports.keys)) =
        true := by
    decide +kernel
  obtain ⟨program, success, checked⟩ := exists_ok_of_any run
  obtain ⟨mentioned, missing⟩ := Bool.and_eq_true_iff.mp checked
  exact ⟨by decide +kernel, program, success, of_decide_eq_true mentioned,
    of_decide_eq_true missing⟩

end BlockScript
