import BlockScript.Script
import BlockScript.Options

/-! # The ledger of a pass

What a pass has given out and collected so far: names, definitions, and the constructors of
widgets. Code is produced by steps that read and write the ledger and may fail; what was written
before a failure stays written, and it is up to the pass to go back. -/

namespace BlockScript

structure Ledger where
  names : Names := {}
  definitions : Definitions := {}
  widgets : Table String := []
deriving DecidableEq, Repr

/-- A step of a pass. -/
abbrev Pass (α : Type) := Ledger → Except GenerateError α × Ledger

namespace Pass
variable {α β : Type}

def pure (a : α) : Pass α := fun ledger => (.ok a, ledger)

def fail (error : GenerateError) : Pass α := fun ledger => (.error error, ledger)

/-- One step and then another that depends on its result, unless it fails. -/
def andThen (step : Pass α) (next : α → Pass β) : Pass β := fun ledger =>
  match step ledger with
  | (.ok a, ledger) => next a ledger
  | (.error error, ledger) => (.error error, ledger)

@[simp] theorem pure_andThen (a : α) (next : α → Pass β) : andThen (pure a) next = next a := rfl

@[simp] theorem fail_andThen (error : GenerateError) (next : α → Pass β) :
    andThen (fail error) next = fail error := rfl

end Pass

namespace Ledger

def getName (ledger : Ledger) (category : NameCategory) (raw : String) : String × Ledger :=
  let (name, names) := ledger.names.get category raw
  (name, { ledger with names })

def distinctName (ledger : Ledger) (base : String) : String × Ledger :=
  let (name, names) := ledger.names.distinct base
  (name, { ledger with names })

def provide (ledger : Ledger) (h : Helper) (indent : String) : String × Ledger :=
  let (name, names, definitions) :=
    ledger.definitions.provide ledger.names h.key h.template indent
  (name, { ledger with names, definitions })

def addImport (ledger : Ledger) (m : Module) : Ledger :=
  { ledger with definitions := ledger.definitions.addImport m.key m.code }

def addDefinition (ledger : Ledger) (key code : String) : Ledger :=
  { ledger with definitions := ledger.definitions.addDefinition key code }

def setDefinition (ledger : Ledger) (key code : String) : Ledger :=
  { ledger with definitions := ledger.definitions.setDefinition key code }

def putWidget (ledger : Ledger) (widget code : String) : Ledger :=
  { ledger with widgets := ledger.widgets.put widget code }

def clearWidgets (ledger : Ledger) : Ledger := { ledger with widgets := [] }

/-- Forget, part by part, what earlier passes left. -/
def reset (ledger : Ledger) : Ledger :=
  { ledger with
    names := ledger.names.reset
    definitions := ledger.definitions.reset
    widgets := [] }

/-- After a reset nothing is left. -/
@[simp] theorem reset_eq (ledger : Ledger) : ledger.reset = {} := rfl

end Ledger

end BlockScript
