import BlockScript.Proofs.Names.Coherence

/-! # What names are made of

Whatever was given out before, a name that a pass gives out is one of the candidates for what it
was asked for. -/

namespace BlockScript

open Names

/-- Is a name one of those that are tried for a raw one? -/
def Names.IsMadeOf (raw given : String) : Prop := ∃ i, given = candidate (safeName raw) i

theorem Names.isMadeOf_fresh (names : Names) (raw : String) : IsMadeOf raw (names.fresh raw) := by
  obtain ⟨i, heq, -⟩ := names.fresh_eq raw
  exact ⟨i, heq⟩

theorem Names.IsMadeOf.isIdentifier {raw given : String} (h : IsMadeOf raw given) :
    isIdentifier given.toList = true := by
  obtain ⟨i, rfl⟩ := h
  exact isIdentifier_candidate (isIdentifier_safeName raw) i

namespace Ledger

/-- Every name in a ledger is made of what it stands for. -/
structure Derived (ledger : Ledger) : Prop where
  entries : ∀ {category raw given}, ledger.names.lookup category raw = some given →
    IsMadeOf raw given
  helpers : ∀ {key given}, ledger.definitions.helperNames.get? key = some given →
    IsMadeOf key given

theorem Derived.empty : Derived {} := by
  constructor
  · intro _ _ _ h
    simp at h
  · intro _ _ h
    simp at h

variable {ledger after : Ledger} {indent : String} {e : Event} {events : List Event}

/-- A ledger with the same names is as good. -/
theorem Derived.of_eq (derived : Derived ledger) (names : after.names.given = ledger.names.given)
    (helpers : after.definitions.helperNames = ledger.definitions.helperNames) :
    Derived after := by
  constructor
  · intro category raw given h
    have h' : ledger.names.lookup category raw = some given := by
      rwa [Names.lookup, ← names]
    exact derived.entries h'
  · intro key given h
    exact derived.helpers (helpers ▸ h)

theorem Derived.getName (derived : Derived ledger) (category : NameCategory) (raw : String) :
    IsMadeOf raw (ledger.getName category raw).1 ∧ Derived (ledger.getName category raw).2 := by
  rcases getName_cases ledger category raw with ⟨given, known, heq⟩ | ⟨-, heq⟩
  · rw [heq]
    exact ⟨derived.entries known, derived⟩
  · have made := ledger.names.isMadeOf_fresh raw
    rw [heq]
    refine ⟨made, ?_, derived.helpers⟩
    intro category' raw' given h
    rw [Names.lookup_cons] at h
    split at h
    · next same =>
        obtain ⟨rfl, rfl⟩ := same
        exact Option.some.inj h ▸ made
    · exact derived.entries h

theorem Derived.provide (derived : Derived ledger) (h : Helper) (indent : String) :
    IsMadeOf h.key (ledger.provide h indent).1 ∧ Derived (ledger.provide h indent).2 := by
  rcases provide_cases ledger h indent with ⟨given, known, heq⟩ | ⟨-, after, heq, names, helpers⟩
  · rw [heq]
    exact ⟨derived.helpers known, derived⟩
  · have made := ledger.names.isMadeOf_fresh h.key
    rw [heq]
    refine ⟨made, ?_, ?_⟩
    · intro category raw given hl
      rw [names] at hl
      exact derived.entries hl
    · intro key given hg
      rw [helpers] at hg
      by_cases same : h.key = key
      · subst same
        rw [Table.get?_put_self] at hg
        exact Option.some.inj hg ▸ made
      · rw [Table.get?_put_of_ne _ _ same] at hg
        exact derived.helpers hg

/-- Every event keeps names made of what they stand for. -/
theorem Derived.step (derived : Derived ledger) (h : Step indent ledger e after) :
    Derived after := by
  cases h with
  | name category raw => exact (derived.getName category raw).2
  | helper h => exact (derived.provide h indent).2
  | temporary | require | declare | define | clearWidgets | addWidget =>
      exact derived.of_eq rfl rfl

theorem Reachable.derived (h : Reachable indent ledger) : Derived ledger := by
  obtain ⟨events, steps⟩ := h
  exact steps.keeps (fun head derived => derived.step head) .empty

end Ledger

end BlockScript
