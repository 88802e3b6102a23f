import BlockScript.Proofs.Names.Coherence

/-! # The names of a pass

A pass reserves names up front and gives out more while it goes on, and goes back where a block
fails. The names that the blocks without errors were given still hold when it ends. -/

namespace BlockScript

namespace Ledger
variable (indent : String)

/-- The events of giving out names, in order. -/
def nameEvents (ledger : Ledger) (category : NameCategory) : List String → List Event
  | [] => []
  | raw :: rest =>
      .name category raw (ledger.getName category raw).1 ::
        nameEvents (ledger.getName category raw).2 category rest

theorem steps_getNames (ledger : Ledger) (category : NameCategory) (raws : List String) :
    Steps indent ledger (ledger.nameEvents category raws) (ledger.getNames category raws).2 := by
  induction raws generalizing ledger with
  | nil => exact .refl ledger
  | cons raw rest ih => exact .cons (.name ledger category raw) (ih _)

/-- What a pass starts from is reached by some events: names of variables, names of procedures,
and the declaration of the variables. -/
theorem reachable_declareNames (nodes : List Node) :
    Reachable indent (declareNames {} nodes) := by
  let first := getNames {} .variableName (variableNames nodes)
  let second := first.2.getNames .procedureName (definedNames nodes)
  have named : Reachable indent second.2 :=
    ⟨_, (steps_getNames indent {} .variableName (variableNames nodes)).append
      (steps_getNames indent first.2 .procedureName (definedNames nodes))⟩
  change Reachable indent (if first.1.isEmpty then second.2 else second.2.addDefinition _ _)
  split
  · exact named
  · exact named.of_steps (.cons (.declare _ _ _) (.refl _))

/-- Whatever led to a ledger, its names are coherent. -/
theorem Reachable.coherent {indent : String} {ledger : Ledger} (h : Reachable indent ledger) :
    Coherent [] ledger := by
  obtain ⟨events, steps⟩ := h
  have coherent : Coherent ([] ++ events) ledger := Coherent.empty.steps steps
  exact coherent.of_append

end Ledger

open Ledger

variable (o : Options)

/-- Rendering a block at the top changes the ledger by the events of the block. -/
theorem Block.steps_renderTop (b : Block) (ledger : Ledger) :
    Steps o.indent ledger (b.events o false ledger) (b.renderTop o ledger).2 := by
  rw [renderTop, Pass.andThen_snd fun _ _ => rfl]
  exact b.steps_render o .top false ledger

/-- The events of the blocks at the top that do not fail. A pass that goes on after an error goes
on from where it was; one that stops has no more events. -/
def passEvents : List Block → Ledger → List Event
  | [], _ => []
  | b :: rest, ledger =>
      match b.renderTop o ledger with
      | (.ok _, after) => b.events o false ledger ++ passEvents rest after
      | (.error _, _) =>
          match o.errorPolicy with
          | .abort => []
          | .comment => passEvents rest ledger

/-- The blocks at the top that do not fail, each with the ledger that it is rendered from. -/
def passVisits : List Block → Ledger → List (Block × Ledger)
  | [], _ => []
  | b :: rest, ledger =>
      match b.renderTop o ledger with
      | (.ok _, after) => (b, ledger) :: passVisits rest after
      | (.error _, _) =>
          match o.errorPolicy with
          | .abort => []
          | .comment => passVisits rest ledger

/-- The events of the pass are those of its blocks, from where each is rendered. -/
theorem passEvents_eq (blocks : List Block) (ledger : Ledger) :
    passEvents o blocks ledger =
      (passVisits o blocks ledger).flatMap fun visit => visit.1.events o false visit.2 := by
  induction blocks generalizing ledger with
  | nil => rfl
  | cons b rest ih =>
      rcases h : b.renderTop o ledger with ⟨error | line, after⟩
      · cases policy : o.errorPolicy with
        | abort => simp only [passEvents, passVisits, h, policy, List.flatMap_nil]
        | comment => simp only [passEvents, passVisits, h, policy, ih]
      · simp only [passEvents, passVisits, h, ih, List.flatMap_cons]

/-- A pass keeps names coherent, with the events of the blocks that do not fail. -/
theorem Ledger.Coherent.renderAll {events : List Event} {ledger : Ledger}
    (coherent : Coherent events ledger) (blocks : List Block) :
    Coherent (events ++ passEvents o blocks ledger) (renderAll o blocks ledger).2 := by
  induction blocks generalizing events ledger with
  | nil => rwa [passEvents, List.append_nil]
  | cons b rest ih =>
      have steps := b.steps_renderTop o ledger
      rcases h : b.renderTop o ledger with ⟨error | line, after⟩
      · rw [h] at steps
        cases policy : o.errorPolicy with
        | abort =>
            simp only [passEvents, BlockScript.renderAll, h, policy, List.append_nil]
            exact (coherent.steps steps).of_append
        | comment =>
            simp only [passEvents, BlockScript.renderAll, h, policy]
            rw [Pass.andThen_snd fun _ _ => rfl]
            exact ih coherent
      · rw [h] at steps
        simp only [passEvents, BlockScript.renderAll, h]
        rw [Pass.andThen_snd fun _ _ => rfl, ← List.append_assoc]
        exact ih (coherent.steps steps)

end BlockScript
