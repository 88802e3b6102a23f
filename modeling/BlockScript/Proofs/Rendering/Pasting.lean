import BlockScript.Proofs.Rendering.Record
import BlockScript.Template.Element

/-! # Code that is pasted once

What a block works on is rendered first, and the script goes on with its code. A script that makes
the same requests and the same text around that code, whatever the code is, pastes it: the run
differs in nothing else. Where the code is to be named more than once, the script binds it to a
temporary, and names that. -/

namespace BlockScript

open Template

/-- The name of a temporary that an event asks for. -/
def Event.temporary? : Event → Option String
  | .temporary given => some given
  | _ => none

/-- The temporaries that a script asks for itself, in order. The code in its inputs may have others,
which are not counted. -/
def Script.temporaries {α : Type} (o : Options) (s : Surroundings) (script : Script α)
    (ledger : Ledger) : List String :=
  (script.events o s ⟨[], []⟩ ledger).filterMap Event.temporary?

/-- The code opens with the statements that bind temporaries, in the order in which they were given
out: the first one is bound to a text, and the second one to an index of the first. Nothing but the
brace of a block stands in front. -/
inductive BindsFirst (text : String) : List String → String → Prop
  | nothing (code : String) : BindsFirst text [] code
  | list {opening : String} (brace : opening = "" ∨ opening = "\x7b ") (bound rest : String) :
      BindsFirst text [bound] (opening ++ bindingOf bound text ++ rest)
  | listAndIndex (bound index rest : String) :
      BindsFirst text [bound, index] (bindingOf bound text ++ "\n" ++ pickIndex index bound ++ rest)

/-- Code with a place for a text, and the temporaries that it has. -/
structure Pasting where
  front : String
  back : String
  /-- The level of an expression; a statement has none. -/
  level? : Option Precedence
  temporaries : List String

namespace Pasting

/-- The code with a text in its place. -/
def code (p : Pasting) (text : String) : String := p.front ++ text ++ p.back

def emit (p : Pasting) (text : String) : Emitted :=
  match p.level? with
  | some level => .value (p.code text) level
  | none => .statement (p.code text)

/-- Whatever the text is, all temporaries are bound before they are named. -/
def Binds (p : Pasting) : Prop := ∀ text, BindsFirst text p.temporaries (p.code text)

end Pasting

/-- For all texts of some sort, scripts make the same requests, for values in other inputs than a
certain one and for names, and paste the text once. The temporaries given out before are listed. -/
inductive Script.Pastes (input : String) (sort : String → Prop) :
    List String → (String → Script Emitted) → Prop
  | done {family : String → Script Emitted} (p : Pasting) (binds : p.Binds)
      (same : ∀ text, sort text → family text = .done (p.emit text)) :
      Pastes input sort p.temporaries family
  | value {names : List String} {family : String → Script Emitted} {other : String}
      {level : Precedence} (next : Option String → String → Script Emitted) (apart : other ≠ input)
      (same : ∀ text, sort text → family text = .value other level fun code => next code text)
      (rest : ∀ code, Pastes input sort names (next code)) : Pastes input sort names family
  | temporary {names : List String} {family : String → Script Emitted} (base : String)
      (next : String → String → Script Emitted)
      (same : ∀ text, sort text → family text = .temporary base fun given => next given text)
      (rest : ∀ given, Pastes input sort (names ++ [given]) (next given)) :
      Pastes input sort names family
  | helper {names : List String} {family : String → Script Emitted} (h : Helper)
      (next : String → String → Script Emitted)
      (same : ∀ text, sort text → family text = .helper h fun given => next given text)
      (rest : ∀ given, Pastes input sort names (next given)) : Pastes input sort names family
  | require {names : List String} {family : String → Script Emitted} (m : Module)
      (next : String → Script Emitted)
      (same : ∀ text, sort text → family text = .require m (next text))
      (rest : Pastes input sort names next) : Pastes input sort names family

/-- Surroundings with certain values in all inputs but one. -/
def Surroundings.AgreeApartFrom (input : String) (others : Table (Node × Pass Emitted))
    (s : Surroundings) : Prop :=
  ∀ other ≠ input, s.values.get? other = others.get? other

/-- One of the values is not rendered, because of an error. -/
def FailsApartFrom (input : String) (others : Table (Node × Pass Emitted))
    (error : GenerateError) : Prop :=
  ∃ other level ledger, other ≠ input ∧
    (Surroundings.valueIn ⟨"", others, []⟩ other level ledger).1 = .error error

variable {input : String} {others : Table (Node × Pass Emitted)} {s : Surroundings} {o : Options}

theorem Surroundings.AgreeApartFrom.valueIn_eq (agree : s.AgreeApartFrom input others)
    {other : String} (apart : other ≠ input) (level : Precedence) :
    s.valueIn other level = Surroundings.valueIn ⟨"", others, []⟩ other level := by
  simp only [Surroundings.valueIn, agree other apart]

namespace Script

variable {sort : String → Prop}

theorem temporaries_value {α : Type} {other : String} {level : Precedence}
    {next : Option String → Script α} {ledger mid : Ledger} {code : Option String}
    (h : s.valueIn other level ledger = (.ok code, mid)) :
    (value other level next).temporaries o s ledger = (next code).temporaries o s mid := by
  simp [temporaries, events, eventsIn, Pass.eventsAfter, h]

/-- Scripts that paste a text run alike for all texts: either another value fails, or the text is
pasted once into the same code, and the temporaries of the code are those that the script has asked
for. -/
theorem Pastes.run {names : List String} {family : String → Script Emitted}
    (h : Pastes input sort names family) (o : Options) (others : Table (Node × Pass Emitted))
    (ledger : Ledger) :
    (∃ error after, FailsApartFrom input others error ∧
      ∀ text s, sort text → s.AgreeApartFrom input others →
        (family text).run o s ledger = (.error error, after)) ∨
    ∃ (p : Pasting) (after : Ledger), p.Binds ∧
      ∀ text s, sort text → s.AgreeApartFrom input others →
        (family text).run o s ledger = (.ok (p.emit text), after) ∧
          p.temporaries = names ++ (family text).temporaries o s ledger := by
  induction h generalizing ledger with
  | done p binds same =>
      refine .inr ⟨p, ledger, binds, fun text s sorted _ => ?_⟩
      rw [same text sorted]
      exact ⟨rfl, (List.append_nil _).symm⟩
  | @value names family other level next apart same rest ih =>
      rcases hv : Surroundings.valueIn ⟨"", others, []⟩ other level ledger with ⟨error | code, mid⟩
      · refine .inl ⟨error, mid, ⟨other, level, ledger, apart, by rw [hv]⟩, ?_⟩
        intro text s sorted agree
        rw [same text sorted]
        exact Pass.andThen_of_error ((congrFun (agree.valueIn_eq apart level) ledger).trans hv)
      · have step (text : String) {s : Surroundings} (sorted : sort text)
            (agree : s.AgreeApartFrom input others) :
            (family text).run o s ledger = (next code text).run o s mid ∧
              (family text).temporaries o s ledger = (next code text).temporaries o s mid := by
          have read := (congrFun (agree.valueIn_eq apart level) ledger).trans hv
          rw [same text sorted]
          exact ⟨Pass.andThen_of_ok read, temporaries_value read⟩
        rcases ih code mid with ⟨error, after, fails, runs⟩ | ⟨p, after, binds, runs⟩
        · refine .inl ⟨error, after, fails, fun text s sorted agree => ?_⟩
          rw [(step text sorted agree).1, runs text s sorted agree]
        · refine .inr ⟨p, after, binds, fun text s sorted agree => ?_⟩
          rw [(step text sorted agree).1, (step text sorted agree).2]
          exact runs text s sorted agree
  | temporary base next same rest ih =>
      rcases ih (ledger.distinctName base).1 (ledger.distinctName base).2 with
        ⟨error, after, fails, runs⟩ | ⟨p, after, binds, runs⟩
      · refine .inl ⟨error, after, fails, fun text s sorted agree => ?_⟩
        rw [same text sorted]
        exact runs text s sorted agree
      · refine .inr ⟨p, after, binds, fun text s sorted agree => ?_⟩
        rw [same text sorted]
        obtain ⟨ran, listed⟩ := runs text s sorted agree
        exact ⟨ran, by rw [listed, List.append_assoc]; rfl⟩
  | helper h next same rest ih =>
      rcases ih (ledger.provide h o.indent).1 (ledger.provide h o.indent).2 with
        ⟨error, after, fails, runs⟩ | ⟨p, after, binds, runs⟩
      · refine .inl ⟨error, after, fails, fun text s sorted agree => ?_⟩
        rw [same text sorted]
        exact runs text s sorted agree
      · refine .inr ⟨p, after, binds, fun text s sorted agree => ?_⟩
        rw [same text sorted]
        exact runs text s sorted agree
  | require m next same rest ih =>
      rcases ih (ledger.addImport m) with ⟨error, after, fails, runs⟩ | ⟨p, after, binds, runs⟩
      · refine .inl ⟨error, after, fails, fun text s sorted agree => ?_⟩
        rw [same text sorted]
        exact runs text s sorted agree
      · refine .inr ⟨p, after, binds, fun text s sorted agree => ?_⟩
        rw [same text sorted]
        exact runs text s sorted agree

end Script

end BlockScript
