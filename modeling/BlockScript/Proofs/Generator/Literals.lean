import BlockScript.Proofs.Generator.Naming
import BlockScript.Proofs.Generator.Recovery
import BlockScript.Proofs.Template.Printing

/-! # Literals in programs

Where the literal of a printed text is found in a program, and what has become of it there. A
text on one line keeps its literal at any depth. The literal of a text with newlines is kept only
where nothing is put in front of lines. -/

namespace BlockScript
open Template (definitionKey)

/-! A definition stays until its key is defined again. -/

theorem Table.get?_append_of_some {α : Type} {t : Table α} {key : String} {value : α}
    (h : t.get? key = some value) (more : Table α) : Table.get? (t ++ more) key = some value := by
  induction t with
  | nil => simp at h
  | cons e rest ih =>
      simp only [List.cons_append, get?] at h ⊢
      split at h
      · next hk => rw [if_pos hk, h]
      · next hk => rw [if_neg hk, ih h]

/-- No helper is defined under the key of a definition of the user. -/
theorem Helper.key_ne_definitionKey (h : Helper) (name : String) : h.key ≠ definitionKey name := by
  have hfirst : h.key.toList.head? ≠ some '%' := by
    cases h <;> decide
  intro heq
  rw [heq] at hfirst
  simp [definitionKey] at hfirst

namespace Ledger
variable {indent : String} {ledger after : Ledger} {name code : String}

theorem provide_get?_definitionKey (ledger : Ledger) (h : Helper) (indent name : String) :
    (ledger.provide h indent).2.definitions.definitions.get? (definitionKey name) =
      ledger.definitions.definitions.get? (definitionKey name) := by
  cases hk : ledger.definitions.helperNames.get? h.key with
  | some given => simp [provide, Definitions.provide, hk]
  | none =>
      simp [provide, Definitions.provide, hk,
        Table.get?_put_of_ne _ _ (h.key_ne_definitionKey name)]

/-- A definition of the user is kept by every event but a definition under its key. -/
theorem Step.keeps_definition {e : Event} (h : Step indent ledger e after)
    (other : ∀ code', e ≠ .define (definitionKey name) code')
    (kept : ledger.definitions.definitions.get? (definitionKey name) = some code) :
    after.definitions.definitions.get? (definitionKey name) = some code := by
  cases h with
  | name | temporary | require | clearWidgets | addWidget => exact kept
  | helper helper => rw [provide_get?_definitionKey, kept]
  | declare key value =>
      simp only [addDefinition, Definitions.addDefinition, Table.putNew]
      split
      · exact kept
      · exact Table.get?_append_of_some kept _
  | define key value =>
      have hne : key ≠ definitionKey name := by
        rintro rfl
        exact other value rfl
      simp only [setDefinition, Definitions.setDefinition]
      rw [Table.get?_put_of_ne _ _ hne, kept]

theorem Steps.keeps_definition {events : List Event} (h : Steps indent ledger events after)
    (other : ∀ code', .define (definitionKey name) code' ∉ events)
    (kept : ledger.definitions.definitions.get? (definitionKey name) = some code) :
    after.definitions.definitions.get? (definitionKey name) = some code := by
  induction h with
  | refl => exact kept
  | cons head tail ih =>
      apply ih
      · exact fun code' hm => other code' (List.mem_cons_of_mem _ hm)
      · exact head.keeps_definition (fun code' heq => other code' (heq ▸ List.mem_cons_self)) kept

/-- The last definition under the key of a routine is the one that stands at the end. -/
theorem Steps.last_definition {earlier later : List Event}
    (h : Steps indent ledger (earlier ++ .define (definitionKey name) code :: later) after)
    (last : ∀ code', .define (definitionKey name) code' ∉ later) :
    after.definitions.definitions.get? (definitionKey name) = some code := by
  induction earlier generalizing ledger with
  | nil =>
      obtain _ | ⟨⟨⟩, tail⟩ := h
      apply tail.keeps_definition last
      simp [setDefinition, Definitions.setDefinition]
  | cons e rest ih =>
      obtain _ | ⟨head, tail⟩ := h
      exact ih tail

end Ledger

/-! A block at the top that does not fail, in the run of the pass. -/

section Pass
variable {o : Options} {ledger final : Ledger} {harvest : Harvest}

/-- A pass that ends without an error is told by its events. -/
theorem steps_renderAll {blocks : List Block}
    (h : renderAll o blocks ledger = (.ok harvest, final)) :
    Ledger.Steps o.indent ledger (passEvents o blocks ledger) final := by
  induction blocks generalizing ledger harvest with
  | nil =>
      obtain ⟨-, rfl⟩ := Prod.mk.inj h
      exact .refl ledger
  | cons b rest ih =>
      have steps := b.steps_renderTop o ledger
      rcases hb : b.renderTop o ledger with ⟨error | line, mid⟩
      · cases policy : o.errorPolicy with
        | abort => simp [renderAll, hb, policy] at h
        | comment =>
            obtain ⟨tail, hrest, -⟩ := (renderAll_cons_eq_ok_of_error policy hb).mp h
            simp only [passEvents, hb, policy]
            exact ih hrest
      · obtain ⟨tail, hrest, -⟩ := (renderAll_cons_eq_ok_of_ok hb).mp h
        rw [hb] at steps
        simp only [passEvents, hb]
        exact steps.append (ih hrest)

/-- A block that does not fail leaves its line among the lines of the pass, and its events among
the events. -/
theorem renderAll_of_ok {before after : List Block} {b : Block} {line : Option String}
    (h : renderAll o (before ++ b :: after) ledger = (.ok harvest, final))
    (succeeds : (b.renderTop o (renderAll o before ledger).2).1 = .ok line) :
    (∀ code ∈ line, code ∈ harvest.lines) ∧
      ∃ earlier later, passEvents o (before ++ b :: after) ledger =
        earlier ++ b.events o false (renderAll o before ledger).2 ++ later := by
  induction before generalizing ledger harvest final with
  | nil =>
      change (b.renderTop o ledger).1 = .ok line at succeeds
      obtain ⟨mid, hb⟩ : ∃ mid, b.renderTop o ledger = (.ok line, mid) := ⟨_, Prod.ext succeeds rfl⟩
      obtain ⟨tail, -, rfl⟩ := (renderAll_cons_eq_ok_of_ok hb).mp h
      constructor
      · rintro code rfl
        exact List.mem_append_left _ (List.mem_singleton_self code)
      · refine ⟨[], passEvents o after mid, ?_⟩
        simp only [List.nil_append, passEvents, hb]
        rfl
  | cons c rest ih =>
      rcases hc : c.renderTop o ledger with ⟨error | other, mid⟩
      · cases policy : o.errorPolicy with
        | abort => simp [renderAll, hc, policy] at h
        | comment =>
            rw [renderAll_cons_snd_of_error policy hc] at succeeds ⊢
            obtain ⟨tail, hrest, rfl⟩ := (renderAll_cons_eq_ok_of_error policy hc).mp h
            obtain ⟨lines, earlier, later, hevents⟩ := ih hrest succeeds
            refine ⟨fun code hm => List.mem_cons_of_mem _ (lines code hm), earlier, later, ?_⟩
            simp only [List.cons_append, passEvents, hc, policy]
            exact hevents
      · rw [renderAll_cons_snd_of_ok hc] at succeeds ⊢
        obtain ⟨tail, hrest, rfl⟩ := (renderAll_cons_eq_ok_of_ok hc).mp h
        obtain ⟨lines, earlier, later, hevents⟩ := ih hrest succeeds
        refine ⟨fun code hm => List.mem_append_right _ (lines code hm),
          c.events o false ledger ++ earlier, later, ?_⟩
        simp only [List.cons_append, passEvents, hc, hevents, List.append_assoc]

/-- A line that lands in a block at the top is in the line of the block or among its
definitions. -/
theorem Prints.renderTop {names : Names} {s : String} {site : Site} {depth : Nat} {b : Block}
    (h : Prints names s site depth b) {line : Option String}
    (succeeds : (b.renderTop o ledger).1 = .ok line) :
    Lands names (printLine o.indent depth s) site (line.getD "") (b.events o false ledger) := by
  have gives := h.gives (o := o) .top ledger
  rcases hr : b.render o .top false ledger with ⟨error | emitted, mid⟩
  · rw [Block.renderTop, Pass.andThen_of_error hr] at succeeds
    simp at succeeds
  · rw [hr] at gives
    rw [Block.renderTop, Pass.andThen_of_ok hr] at succeeds
    obtain rfl := Except.ok.inj succeeds
    cases site with
    | definition => exact Lands.definition_of gives (List.Subset.refl _)
    | body =>
        have hne : emitted.text ≠ "" := by
          intro hempty
          obtain ⟨first, last, hline⟩ := gives
          rw [hempty] at hline
          simp at hline
        cases emitted with
        | statement code =>
            have hline : Block.lineOf (.statement code) = some code := if_neg hne
            rw [hline]
            exact gives
        | value code level => exact absurd rfl hne
        | nothing => exact absurd rfl hne

end Pass

/-- A program is put together from what a pass without an error leaves. -/
theorem Generator.generate_eq_ok {g : Generator} {w : Workspace} {program : Program}
    (success : (g.generate w).1 = .ok program) :
    ∃ harvest final,
      renderAll g.options w.orderedBlocks (Ledger.declareNames {} w.walk) = (.ok harvest, final) ∧
      program =
        { imports := final.definitions.imports
          definitions := final.definitions.definitions
          body := "\n".intercalate harvest.lines
          errors := harvest.errors } ∧
      (g.generate w).2.ledger = final := by
  rcases h : renderAll g.options w.orderedBlocks (Ledger.declareNames {} w.walk) with
    ⟨error | harvest, final⟩
  · simp [generate, h, Except.map] at success
  · refine ⟨harvest, final, rfl, ?_, ?_⟩
    · simpa [generate, h, Except.map, eq_comm] using success
    · simp [generate, h]

/-- What is held by one of several texts is held by all of them joined. -/
theorem Text.HoldsLine.intercalate {line : List Char} {text separator : String}
    {texts : List String} (member : text ∈ texts) (h : HoldsLine line text) :
    HoldsLine line (separator.intercalate texts) := by
  obtain ⟨before, after, heq⟩ := exists_intercalate_eq separator member
  rw [heq]
  exact h.append before after

/-- The literal of a printed text, shifted once for each statement input around it, stands in the
body or in the definition that the print belongs to. It is the literal of the text exactly if
there is no such input, if the options put nothing in front of lines, or if the text is on one
line. -/
theorem generate_prints (g : Generator) (w : Workspace) {program : Program}
    (success : (g.generate w).1 = .ok program) {before after : List Block} {b : Block}
    (order : w.orderedBlocks = before ++ b :: after) {line : Option String}
    (succeeds : (b.renderTop g.options
      (renderAll g.options before (Ledger.declareNames {} w.walk)).2).1 = .ok line)
    {s : String} {site : Site} {depth : Nat}
    (prints : Prints (g.generate w).2.ledger.names s site depth b) :
    let literal := Text.shiftedQuote g.options.indent depth s
    let printed := ("print(" ++ literal ++ ");\n").toList
    (literal = Text.quote s ↔ depth = 0 ∨ g.options.indent = "" ∨ '\n' ∉ s.toList) ∧
      match site with
      | .body => printed <:+: program.body.toList
      | .definition => ∃ earlier name code later,
          passEvents g.options w.orderedBlocks (Ledger.declareNames {} w.walk) =
            earlier ++ .define (definitionKey name) code :: later ∧
          printed <:+: code.toList ∧
          ((∀ other, .define (definitionKey name) other ∉ later) →
            program.definitions.get? (definitionKey name) = some code) := by
  intro literal printed
  refine ⟨Text.shiftedQuote_eq_quote_iff g.options.indent depth s, ?_⟩
  obtain ⟨harvest, final, run, rfl, hfinal⟩ := g.generate_eq_ok success
  rw [hfinal] at prints
  rw [order] at run
  obtain ⟨lines, first, last, hevents⟩ := renderAll_of_ok run succeeds
  have lands := prints.renderTop succeeds
  have hprinted : printed = printLine g.options.indent depth s ++ ['\n'] := by
    simp [printed, literal, printLine]
  cases site with
  | body =>
      cases line with
      | none =>
          obtain ⟨x, y, hxy⟩ := lands
          simp at hxy
      | some code =>
          have held : Text.HoldsLine _ ("\n".intercalate harvest.lines) :=
            Text.HoldsLine.intercalate (lines code rfl) lands
          exact hprinted ▸ held
  | definition =>
      have coherent : Ledger.Coherent (passEvents g.options (before ++ b :: after)
          (Ledger.declareNames {} w.walk)) final := by
        have kept := (Ledger.reachable_declareNames g.options.indent w.walk).coherent.renderAll
          g.options (before ++ b :: after)
        rw [run] at kept
        exact kept
      have agree : final.names.Agree (b.events g.options false
          (renderAll g.options before (Ledger.declareNames {} w.walk)).2) := by
        intro category raw given hm
        apply coherent.named
        rw [hevents]
        exact List.mem_append_left _ (List.mem_append_right _ hm)
      obtain ⟨name, code, hdef, held⟩ := lands agree
      obtain ⟨inner, outer, hsplit⟩ := List.append_of_mem hdef
      have whole : passEvents g.options (before ++ b :: after) (Ledger.declareNames {} w.walk) =
          (first ++ inner) ++ .define (definitionKey name) code :: (outer ++ last) := by
        rw [hevents, hsplit]
        simp
      refine ⟨first ++ inner, name, code, outer ++ last, ?_, hprinted ▸ held, ?_⟩
      · rw [order, whole]
      · intro lastOne
        have steps := steps_renderAll run
        rw [whole] at steps
        exact steps.last_definition lastOne

/-- A loop that prints a text. -/
def printingLoop (s : String) : Block :=
  { node := { id := "f", kindName := "forever" }
    statements :=
      [("STMTS",
        { node := { id := "p", kindName := "text_print" }
          values :=
            [("TEXT", { node := { id := "t", kindName := "text", fields := [("TEXT", s)] } })] })] }

theorem prints_printingLoop (names : Names) (s : String) :
    Prints names s .body 1 (printingLoop s) := by
  have known : Kind.ofTypeName? "forever" = some .forever := rfl
  refine Prints.enclosed rfl known .forever rfl ?_
  exact Prints.print rfl rfl rfl rfl rfl rfl

theorem generate_prints_loop :
    let g : Generator := { options := {} }
    let w : Workspace := { blocks := [printingLoop "hi"] }
    ∃ program, (g.generate w).1 = .ok program ∧
      ("print(" ++ Text.quote "hi" ++ ");\n").toList <:+: program.body.toList := by
  intro g w
  have order : w.orderedBlocks = [] ++ printingLoop "hi" :: [] := rfl
  obtain ⟨literal, held⟩ := generate_prints g w rfl order rfl (prints_printingLoop _ "hi")
  refine ⟨_, rfl, ?_⟩
  rw [literal.mpr (.inr (.inr (by decide)))] at held
  exact held

/-- A text of two lines that a loop prints has lost its literal: the second line is indented. -/
theorem generate_indents_literal :
    let w : Workspace := { blocks := [printingLoop "a\nb"] }
    (∀ names, Prints names "a\nb" .body 1 (printingLoop "a\nb")) ∧
      ∃ program, generate {} w = .ok program ∧
        program.body = "( loop  \n  print('a\\\n  b');\n)" ∧ program.definitions = [] ∧
          Text.holdsText (Text.quote "a\nb").toList program.body.toList = false := by
  intro w
  exact ⟨fun names => prints_printingLoop names _, _, rfl, rfl, rfl, by decide⟩

end BlockScript
