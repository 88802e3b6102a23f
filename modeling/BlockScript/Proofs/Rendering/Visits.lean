import Mathlib.Logic.Relation
import BlockScript.Proofs.Rendering.Chains
import BlockScript.Proofs.Rendering.Runs

/-! # Visits

While a block is rendered, its script comes from one request to the next, and where it asks for the
code of another block, that one is rendered in turn. So a rendering visits blocks, each from the
ledger of that moment. If the whole goes without an error, so does every visit, and each event of the
whole is a request that the script of a visited block makes itself. -/

namespace BlockScript

open Relation (ReflTransGen)

theorem Pass.eventsAfter_subset {α : Type} {step : Pass α} {first second : α → Ledger → List Event}
    (h : ∀ a ledger, first a ledger ⊆ second a ledger) (ledger : Ledger) :
    step.eventsAfter first ledger ⊆ step.eventsAfter second ledger := by
  unfold eventsAfter
  split
  · exact h _ _
  · exact List.Subset.refl _

namespace Script
variable {α : Type} {o : Options} {s : Surroundings} {r : Records} {x y : Script α × Ledger}
  {e : Event}

/-- A script has its first request met and goes on with the answer. -/
inductive Proceeds (o : Options) (s : Surroundings) : Script α × Ledger → Script α × Ledger → Prop
  | value {input : String} {level : Precedence} {next : Option String → Script α}
      {ledger mid : Ledger} {code : Option String}
      (answered : s.valueIn input level ledger = (.ok code, mid)) :
      Proceeds o s (.value input level next, ledger) (next code, mid)
  | body {input code : String} {next : String → Script α} {ledger mid : Ledger}
      (answered : s.bodyIn o.indent input ledger = (.ok code, mid)) :
      Proceeds o s (.body input next, ledger) (next code, mid)
  | hasBody (input : String) (next : Bool → Script α) (ledger : Ledger) :
      Proceeds o s (.hasBody input next, ledger) (next (s.statements.get? input).isSome, ledger)
  | remarks (next : String → Script α) (ledger : Ledger) :
      Proceeds o s (.remarks next, ledger) (next s.remarks, ledger)
  | name (category : NameCategory) (raw : String) (next : String → Script α) (ledger : Ledger) :
      Proceeds o s (.name category raw next, ledger)
        (next (ledger.getName category raw).1, (ledger.getName category raw).2)
  | temporary (base : String) (next : String → Script α) (ledger : Ledger) :
      Proceeds o s (.temporary base next, ledger)
        (next (ledger.distinctName base).1, (ledger.distinctName base).2)
  | helper (h : Helper) (next : String → Script α) (ledger : Ledger) :
      Proceeds o s (.helper h next, ledger)
        (next (ledger.provide h o.indent).1, (ledger.provide h o.indent).2)
  | require (m : Module) (next : Script α) (ledger : Ledger) :
      Proceeds o s (.require m next, ledger) (next, ledger.addImport m)
  | define (key code : String) (next : Script α) (ledger : Ledger) :
      Proceeds o s (.define key code next, ledger) (next, ledger.setDefinition key code)
  | clearWidgets (next : Script α) (ledger : Ledger) :
      Proceeds o s (.clearWidgets next, ledger) (next, ledger.clearWidgets)
  | addWidget (widget code : String) (next : Script α) (ledger : Ledger) :
      Proceeds o s (.addWidget widget code next, ledger) (next, ledger.putWidget widget code)
  | widgets (next : List String → Script α) (ledger : Ledger) :
      Proceeds o s (.widgets next, ledger) (next ledger.widgets.values, ledger)

/-- What is left of a script runs as the script does. -/
theorem Proceeds.run_eq (h : Proceeds o s x y) : x.1.run o s x.2 = y.1.run o s y.2 := by
  cases h with
  | value answered | body answered => exact Pass.andThen_of_ok answered
  | _ => rfl

theorem Proceeds.events_subset (h : Proceeds o s x y) (r : Records) :
    y.1.events o s r y.2 ⊆ x.1.events o s r x.2 := by
  cases h with
  | value answered | body answered =>
      simp only [events, Pass.eventsAfter, answered]
      exact List.subset_append_right _ _
  | hasBody | remarks | widgets => exact List.Subset.refl _
  | _ => exact List.subset_cons_self _ _

theorem run_eq_of_proceeds (path : ReflTransGen (Proceeds o s) x y) :
    x.1.run o s x.2 = y.1.run o s y.2 := by
  induction path with
  | refl => rfl
  | tail _ step ih => exact ih.trans step.run_eq

theorem events_subset_of_proceeds (path : ReflTransGen (Proceeds o s) x y) (r : Records) :
    y.1.events o s r y.2 ⊆ x.1.events o s r x.2 := by
  induction path with
  | refl => exact List.Subset.refl _
  | tail _ step ih => exact List.Subset.trans (step.events_subset r) ih

/-- The requests of a script itself are among its events, whatever comes from its inputs. -/
theorem requests_subset_events (script : Script α) (r : Records) (ledger : Ledger) :
    script.events o s ⟨[], []⟩ ledger ⊆ script.events o s r ledger := by
  induction script generalizing ledger with
  | done | fail => exact List.Subset.refl _
  | value input level next ih | body input next ih =>
      exact List.subset_append_of_subset_right _ (Pass.eventsAfter_subset ih ledger)
  | hasBody input next ih => exact ih _ ledger
  | remarks next ih => exact ih _ ledger
  | widgets next ih => exact ih _ ledger
  | name category raw next ih => exact List.cons_subset_cons _ (ih _ _)
  | temporary base next ih => exact List.cons_subset_cons _ (ih _ _)
  | helper h next ih => exact List.cons_subset_cons _ (ih _ _)
  | require m next ih => exact List.cons_subset_cons _ (ih _)
  | define key code next ih => exact List.cons_subset_cons _ (ih _)
  | clearWidgets next ih => exact List.cons_subset_cons _ (ih _)
  | addWidget widget code next ih => exact List.cons_subset_cons _ (ih _)

/-- An event is a request of the script itself, or it comes from an input that the script asks for. -/
inductive Accounts (o : Options) (s : Surroundings) (r : Records) (e : Event) :
    Script α × Ledger → Prop
  | own {x : Script α × Ledger} (mem : e ∈ x.1.events o s ⟨[], []⟩ x.2) : Accounts o s r e x
  | value {x : Script α × Ledger} {input : String} {level : Precedence}
      {next : Option String → Script α} {mid : Ledger}
      (path : ReflTransGen (Proceeds o s) x (.value input level next, mid))
      (mem : e ∈ eventsIn r.values input mid) : Accounts o s r e x
  | body {x : Script α × Ledger} {input : String} {next : String → Script α} {mid : Ledger}
      (path : ReflTransGen (Proceeds o s) x (.body input next, mid))
      (mem : e ∈ eventsIn r.statements input mid) : Accounts o s r e x

theorem Proceeds.accounts (h : Proceeds o s x y) (later : Accounts o s r e y) :
    Accounts o s r e x := by
  cases later with
  | own mem => exact .own (h.events_subset _ mem)
  | value path mem => exact .value (.head h path) mem
  | body path mem => exact .body (.head h path) mem

/-- The first request is one of the script itself, and what comes after it is accounted for. -/
theorem Proceeds.accounts_cons {first : Event} (h : Proceeds o s x y)
    (starts : x.1.events o s ⟨[], []⟩ x.2 = first :: y.1.events o s ⟨[], []⟩ y.2)
    (later : e ∈ y.1.events o s r y.2 → Accounts o s r e y)
    (mem : e ∈ first :: y.1.events o s r y.2) : Accounts o s r e x := by
  rcases List.mem_cons.mp mem with rfl | mem
  · exact .own (starts ▸ List.mem_cons_self)
  · exact h.accounts (later mem)

/-- Each event of a script is accounted for. -/
theorem accounts_of_mem_events (script : Script α) {ledger : Ledger}
    (mem : e ∈ script.events o s r ledger) : Accounts o s r e (script, ledger) := by
  induction script generalizing ledger with
  | done | fail => exact absurd mem List.not_mem_nil
  | value input level next ih =>
      rcases List.mem_append.mp mem with mem | mem
      · exact .value .refl mem
      · rcases answered : s.valueIn input level ledger with ⟨error | code, mid⟩ <;>
          simp only [Pass.eventsAfter, answered] at mem
        · exact absurd mem List.not_mem_nil
        · exact (Proceeds.value answered).accounts (ih code mem)
  | body input next ih =>
      rcases List.mem_append.mp mem with mem | mem
      · exact .body .refl mem
      · rcases answered : s.bodyIn o.indent input ledger with ⟨error | code, mid⟩ <;>
          simp only [Pass.eventsAfter, answered] at mem
        · exact absurd mem List.not_mem_nil
        · exact (Proceeds.body answered).accounts (ih code mem)
  | hasBody input next ih => exact (Proceeds.hasBody input next ledger).accounts (ih _ mem)
  | remarks next ih => exact (Proceeds.remarks next ledger).accounts (ih _ mem)
  | widgets next ih => exact (Proceeds.widgets next ledger).accounts (ih _ mem)
  | name category raw next ih =>
      exact (Proceeds.name category raw next ledger).accounts_cons rfl (ih _) mem
  | temporary base next ih => exact (Proceeds.temporary base next ledger).accounts_cons rfl (ih _) mem
  | helper h next ih => exact (Proceeds.helper h next ledger).accounts_cons rfl (ih _) mem
  | require m next ih => exact (Proceeds.require m next ledger).accounts_cons rfl ih mem
  | define key code next ih => exact (Proceeds.define key code next ledger).accounts_cons rfl ih mem
  | clearWidgets next ih => exact (Proceeds.clearWidgets next ledger).accounts_cons rfl ih mem
  | addWidget widget code next ih =>
      exact (Proceeds.addWidget widget code next ledger).accounts_cons rfl ih mem

end Script

/-! ### Blocks that are rendered for another one -/

namespace Block
variable {o : Options} {b : Block} {kind : Kind}

/-- A block is enabled and of a kind. -/
structure IsOn (b : Block) (kind : Kind) : Prop where
  on : b.node.disabled = false
  known : Kind.ofTypeName? b.node.kindName = some kind

theorem IsOn.unique {other : Kind} (h : b.IsOn kind) (h' : b.IsOn other) : kind = other :=
  Option.some.inj (h.known.symm.trans h'.known)

/-- An enabled block runs the script of its kind, and its comments go around the code. -/
theorem render_of_isOn (isOn : b.IsOn kind) (o : Options) (place : Place) (alone : Bool) :
    b.render o place alone = (b.own o kind).andThen
      (surround o kind b.node (remarkLines kind b.node b.values) (renderNext o b.next) place
        alone) := by
  rw [render_eq, renderNode, if_neg (by rw [isOn.on]; exact Bool.false_ne_true), isOn.known]
  rfl

/-- The script of a kind runs for a block, with the blocks that are plugged into it. -/
abbrev ownSurroundings (o : Options) (b : Block) (kind : Kind) : Surroundings :=
  b.surroundings o (remarkLines kind b.node b.values)

/-- What a block records of the blocks that are plugged into it. -/
abbrev ownRecords (o : Options) (b : Block) : Records :=
  ⟨inputEvents o true b.values, inputEvents o false b.statements⟩

/-- The events of an enabled block are those of its script and of what follows. -/
theorem IsOn.events_eq_append (isOn : b.IsOn kind) (o : Options) (alone : Bool) (ledger : Ledger) :
    b.events o alone ledger =
      (kind.script o b.node).events o (b.ownSurroundings o kind) (b.ownRecords o) ledger ++
        (b.own o kind).eventsAfter (surroundEvents alone (nextEvents o b.next)) ledger := by
  rw [Block.events_eq, nodeEvents, if_neg (by rw [isOn.on]; exact Bool.false_ne_true), isOn.known]
  rfl

/-- A disabled block has the events of what follows it. -/
theorem events_of_disabled (off : b.node.disabled = true) (o : Options) (alone : Bool)
    (ledger : Ledger) :
    b.events o alone ledger = followingEvents alone (nextEvents o b.next) ledger := by
  rw [Block.events_eq, nodeEvents, if_pos off]

/-- Only a block that does not stand alone has events of what follows it. -/
theorem exists_next_of_event {alone : Bool} {next : Option Block} {ledger : Ledger} {e : Event}
    (mem : e ∈ followingEvents alone (nextEvents o next) ledger) :
    alone = false ∧ ∃ child, next = some child ∧ e ∈ child.events o false ledger := by
  cases alone with
  | true => exact absurd mem List.not_mem_nil
  | false =>
      cases next with
      | none => exact absurd mem List.not_mem_nil
      | some child => exact ⟨rfl, child, rfl, mem⟩

section Inputs
variable {inputs : List (String × Block)} {input : String} {child : Block} {alone : Bool}

theorem eventsIn_inputEvents (plugged : Table.get? inputs input = some child) (ledger : Ledger) :
    eventsIn (inputEvents o alone inputs) input ledger = child.events o alone ledger := by
  simp only [eventsIn, get?_inputEvents, plugged, Option.map_some]

theorem exists_child_of_event {ledger : Ledger} {e : Event}
    (mem : e ∈ eventsIn (inputEvents o alone inputs) input ledger) :
    ∃ child, Table.get? inputs input = some child ∧ e ∈ child.events o alone ledger := by
  cases plugged : Table.get? inputs input with
  | none => simp [eventsIn, get?_inputEvents, plugged] at mem
  | some child => exact ⟨child, rfl, eventsIn_inputEvents plugged ledger ▸ mem⟩

end Inputs

end Block

/-- A block, whether it is rendered without what follows it, and the ledger that it is rendered
from. -/
structure Visit where
  block : Block
  alone : Bool
  ledger : Ledger

namespace Visit
variable {o : Options} {v w : Visit} {kind : Kind} {e : Event}

/-- The requests of a visit, with those of the visits that it leads to. -/
abbrev events (o : Options) (v : Visit) : List Event := v.block.events o v.alone v.ledger

/-- The requests that the script of the block makes itself. -/
def requests (o : Options) (v : Visit) (kind : Kind) : List Event :=
  (kind.script o v.block.node).events o (v.block.ownSurroundings o kind) ⟨[], []⟩ v.ledger

/-- At some place the block is rendered without an error. -/
def Succeeds (o : Options) (v : Visit) : Prop :=
  ∃ place emitted after, v.block.render o place v.alone v.ledger = (.ok emitted, after)

/-- One visit leads to another: the script asks for the code of a value or of a body, or the next
block follows a statement or a disabled block. -/
inductive Leads (o : Options) : Visit → Visit → Prop
  | value {b child : Block} {alone : Bool} {ledger mid : Ledger} {kind : Kind} {input : String}
      {level : Precedence} {next : Option String → Script Emitted} (isOn : b.IsOn kind)
      (path : ReflTransGen (Script.Proceeds o (b.ownSurroundings o kind))
        (kind.script o b.node, ledger) (.value input level next, mid))
      (plugged : b.value? input = some child) : Leads o ⟨b, alone, ledger⟩ ⟨child, true, mid⟩
  | body {b child : Block} {alone : Bool} {ledger mid : Ledger} {kind : Kind} {input : String}
      {next : String → Script Emitted} (isOn : b.IsOn kind)
      (path : ReflTransGen (Script.Proceeds o (b.ownSurroundings o kind))
        (kind.script o b.node, ledger) (.body input next, mid))
      (plugged : b.statement? input = some child) : Leads o ⟨b, alone, ledger⟩ ⟨child, false, mid⟩
  | next {b child : Block} {ledger mid : Ledger} {kind : Kind} {code : String} (isOn : b.IsOn kind)
      (run : b.own o kind ledger = (.ok (.statement code), mid)) (follows : b.next = some child) :
      Leads o ⟨b, false, ledger⟩ ⟨child, false, mid⟩
  | skipped {b child : Block} {ledger : Ledger} (off : b.node.disabled = true)
      (follows : b.next = some child) : Leads o ⟨b, false, ledger⟩ ⟨child, false, ledger⟩

/-- A visit that succeeds runs the script of its block, whose events are among its own. -/
theorem Succeeds.exists_runs (h : v.Succeeds o) (isOn : v.block.IsOn kind) :
    ∃ own after events, (kind.script o v.block.node).Runs o (v.block.ownSurroundings o kind)
      (v.block.ownRecords o) v.ledger own after events ∧ events ⊆ v.events o := by
  obtain ⟨place, emitted, after, rendered⟩ := h
  rw [Block.render_of_isOn isOn] at rendered
  obtain ⟨own, mid, run, -⟩ := Pass.andThen_eq_ok.mp rendered
  refine ⟨own, mid, _, ⟨run, rfl⟩, ?_⟩
  rw [events, isOn.events_eq_append]
  exact List.subset_append_left _ _

theorem Leads.succeeds (h : v.Leads o w) (succeeds : v.Succeeds o) : w.Succeeds o := by
  cases h with
  | value isOn path plugged =>
      obtain ⟨own, after, events, runs, -⟩ := succeeds.exists_runs isOn
      have rest := (Script.run_eq_of_proceeds path).symm.trans runs.run
      obtain ⟨code, mid, answered, -⟩ := Pass.andThen_eq_ok.mp rest
      rw [Block.valueIn_of_plugged plugged] at answered
      obtain ⟨emitted, last, rendered, -⟩ := Pass.andThen_eq_ok.mp answered
      exact ⟨.value, emitted, last, rendered⟩
  | body isOn path plugged =>
      obtain ⟨own, after, events, runs, -⟩ := succeeds.exists_runs isOn
      have rest := (Script.run_eq_of_proceeds path).symm.trans runs.run
      obtain ⟨code, mid, answered, -⟩ := Pass.andThen_eq_ok.mp rest
      rw [Block.bodyIn_of_plugged plugged] at answered
      obtain ⟨chain, last, rendered, -⟩ := Pass.andThen_eq_ok.mp answered
      obtain ⟨emitted, last, rendered, -⟩ := Pass.andThen_eq_ok.mp rendered
      exact ⟨.statement, emitted, last, rendered⟩
  | next isOn run follows =>
      obtain ⟨place, emitted, after, rendered⟩ := succeeds
      rw [Block.render_of_isOn isOn, Pass.andThen_of_ok run, Block.renderNext_eq, follows] at rendered
      obtain ⟨chain, last, rendered, -⟩ := Pass.andThen_eq_ok.mp rendered
      obtain ⟨emitted, last, rendered, -⟩ := Pass.andThen_eq_ok.mp rendered
      exact ⟨.statement, emitted, last, rendered⟩
  | skipped off follows =>
      obtain ⟨place, emitted, after, rendered⟩ := succeeds
      rw [Block.render_eq, renderNode, if_pos off, Block.renderNext_eq, follows] at rendered
      obtain ⟨chain, last, rendered, -⟩ := Pass.andThen_eq_ok.mp rendered
      obtain ⟨emitted, last, rendered, -⟩ := Pass.andThen_eq_ok.mp rendered
      exact ⟨.statement, emitted, last, rendered⟩

theorem Leads.events_subset (h : v.Leads o w) : w.events o ⊆ v.events o := by
  cases h with
  | value isOn path plugged =>
      rw [events, events, isOn.events_eq_append, ← Block.eventsIn_inputEvents plugged]
      refine List.Subset.trans ?_ (List.subset_append_of_subset_left _
        (Script.events_subset_of_proceeds path _))
      exact List.subset_append_left _ _
  | body isOn path plugged =>
      rw [events, events, isOn.events_eq_append, ← Block.eventsIn_inputEvents plugged]
      refine List.Subset.trans ?_ (List.subset_append_of_subset_left _
        (Script.events_subset_of_proceeds path _))
      exact List.subset_append_left _ _
  | next isOn run follows =>
      rw [events, events, isOn.events_eq_append, Pass.eventsAfter, run, Block.nextEvents_eq, follows]
      exact List.subset_append_right _ _
  | skipped off follows =>
      rw [events, events, Block.events_of_disabled off, Block.nextEvents_eq, follows]
      exact List.Subset.refl _

theorem succeeds_of_leads (path : ReflTransGen (Leads o) v w) (succeeds : v.Succeeds o) :
    w.Succeeds o := by
  induction path with
  | refl => exact succeeds
  | tail _ step ih => exact step.succeeds ih

theorem events_subset_of_leads (path : ReflTransGen (Leads o) v w) : w.events o ⊆ v.events o := by
  induction path with
  | refl => exact List.Subset.refl _
  | tail _ step ih => exact List.Subset.trans step.events_subset ih

/-- Each event of a visit is a request of a script that it leads to. -/
theorem exists_request_of_event (mem : e ∈ v.events o) :
    ∃ w kind, ReflTransGen (Leads o) v w ∧ w.block.IsOn kind ∧ e ∈ w.requests o kind := by
  obtain ⟨b, alone, ledger⟩ := v
  induction b generalizing alone ledger with
  | mk node values statements next ihv ihs ihn =>
      change e ∈ Block.events o ⟨node, values, statements, next⟩ alone ledger at mem
      by_cases off : node.disabled = true
      · rw [Block.events_of_disabled off] at mem
        obtain ⟨rfl, child, follows, mem⟩ := Block.exists_next_of_event mem
        obtain ⟨w, kind, path, asked⟩ := ihn child follows false ledger mem
        exact ⟨w, kind, .head (.skipped off follows) path, asked⟩
      cases known : Kind.ofTypeName? node.kindName with
      | none =>
          rw [Block.events_eq, nodeEvents, if_neg off, known] at mem
          exact absurd mem List.not_mem_nil
      | some kind =>
          have isOn : Block.IsOn ⟨node, values, statements, next⟩ kind :=
            ⟨eq_false_of_ne_true off, known⟩
          rw [isOn.events_eq_append] at mem
          rcases List.mem_append.mp mem with mem | mem
          · cases Script.accounts_of_mem_events _ mem with
            | own mem => exact ⟨_, kind, .refl, isOn, mem⟩
            | value path mem =>
                obtain ⟨child, plugged, mem⟩ := Block.exists_child_of_event mem
                obtain ⟨w, kind, later, asked⟩ := ihv _ (Table.mem_of_get? plugged) true _ mem
                exact ⟨w, kind, .head (.value isOn path plugged) later, asked⟩
            | body path mem =>
                obtain ⟨child, plugged, mem⟩ := Block.exists_child_of_event mem
                obtain ⟨w, kind, later, asked⟩ := ihs _ (Table.mem_of_get? plugged) false _ mem
                exact ⟨w, kind, .head (.body isOn path plugged) later, asked⟩
          · rcases run : Block.own o kind ⟨node, values, statements, next⟩ ledger with
              ⟨error | emitted, mid⟩ <;> simp only [Pass.eventsAfter, run] at mem
            · exact absurd mem List.not_mem_nil
            · cases emitted with
              | statement code =>
                  obtain ⟨rfl, child, follows, mem⟩ := Block.exists_next_of_event mem
                  obtain ⟨w, kind, path, asked⟩ := ihn child follows false mid mem
                  exact ⟨w, kind, .head (.next isOn run follows) path, asked⟩
              | value | nothing => exact absurd mem List.not_mem_nil

theorem requests_subset (isOn : v.block.IsOn kind) : v.requests o kind ⊆ v.events o := by
  rw [events, isOn.events_eq_append]
  exact List.subset_append_of_subset_left _ (Script.requests_subset_events _ _ _)

end Visit

end BlockScript
