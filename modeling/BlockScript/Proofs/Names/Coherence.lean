import BlockScript.Proofs.Names.Fresh
import BlockScript.Proofs.Rendering.Record

/-! # Names stay coherent

Names are given out one by one while a pass goes on, to variables, procedures, helpers and
temporaries. Every name is an identifier and no reserved word, no name has two owners, and an answer
once given holds to the end of the pass. -/

namespace BlockScript

theorem Names.lookup_cons (names : Names) (taken : List String) (category other : NameCategory)
    (raw raw' name : String) :
    lookup ⟨taken, ((category, raw), name) :: names.given⟩ other raw' =
      if category = other ∧ raw = raw' then some name else names.lookup other raw' := by
  unfold lookup
  rw [List.find?_cons]
  by_cases h : category = other ∧ raw = raw'
  · rw [if_pos h]
    simp [h.1, h.2]
  · rw [if_neg h]
    simp [h]

namespace Ledger
variable {ledger after : Ledger} {indent : String}

/-- A request for a name changes nothing if the name is known, and takes a new one otherwise. -/
theorem getName_cases (ledger : Ledger) (category : NameCategory) (raw : String) :
    (∃ given, ledger.names.lookup category raw = some given ∧
      ledger.getName category raw = (given, ledger)) ∨
    (ledger.names.lookup category raw = none ∧
      ledger.getName category raw =
        (ledger.names.fresh raw,
          { ledger with
            names :=
              { taken := ledger.names.fresh raw :: ledger.names.taken
                given := ((category, raw), ledger.names.fresh raw) :: ledger.names.given } })) := by
  cases h : ledger.names.lookup category raw with
  | some given =>
      refine .inl ⟨given, rfl, ?_⟩
      simp [getName, Names.get, h]
  | none =>
      refine .inr ⟨rfl, ?_⟩
      simp [getName, Names.get, Names.distinct, h]

/-- A request for a helper changes nothing if the helper is there, and names and defines it
otherwise. -/
theorem provide_cases (ledger : Ledger) (h : Helper) (indent : String) :
    (∃ given, ledger.definitions.helperNames.get? h.key = some given ∧
      ledger.provide h indent = (given, ledger)) ∨
    (ledger.definitions.helperNames.get? h.key = none ∧
      ∃ after, ledger.provide h indent = (ledger.names.fresh h.key, after) ∧
        after.names =
          { ledger.names with taken := ledger.names.fresh h.key :: ledger.names.taken } ∧
        after.definitions.helperNames =
          ledger.definitions.helperNames.put h.key (ledger.names.fresh h.key)) := by
  cases hk : ledger.definitions.helperNames.get? h.key with
  | some given =>
      refine .inl ⟨given, rfl, ?_⟩
      simp [provide, Definitions.provide, hk]
  | none =>
      refine .inr ⟨rfl, (ledger.provide h indent).2, ?_⟩
      simp [provide, Definitions.provide, Names.distinct, hk]

/-- What a name is given out for. -/
inductive Owner where
  | entry (category : NameCategory) (raw : String)
  | helper (key : String)
  /-- The temporary that a certain event asked for. -/
  | temporary (index : Nat)
deriving DecidableEq, Repr

/-- Who has a name, after some events that led to a ledger. -/
inductive Owns (events : List Event) (ledger : Ledger) (given : String) : Owner → Prop
  | entry {category : NameCategory} {raw : String}
      (h : ledger.names.lookup category raw = some given) :
      Owns events ledger given (.entry category raw)
  | helper {key : String} (h : ledger.definitions.helperNames.get? key = some given) :
      Owns events ledger given (.helper key)
  | temporary {index : Nat} (h : events[index]? = some (.temporary given)) :
      Owns events ledger given (.temporary index)

/-- Every answer that was given still holds. Names are identifiers, none is reserved, and no name
has two owners. -/
structure Coherent (events : List Event) (ledger : Ledger) : Prop where
  named : ∀ {category raw given}, .name category raw given ∈ events →
    ledger.names.lookup category raw = some given
  helped : ∀ {h given}, .helper h given ∈ events →
    ledger.definitions.helperNames.get? (Helper.key h) = some given
  taken : ∀ {given owner}, Owns events ledger given owner → given ∈ ledger.names.taken
  unreserved : ∀ {given owner}, Owns events ledger given owner → given ∉ reservedWords
  spelled : ∀ {given owner}, Owns events ledger given owner →
    Names.isIdentifier given.toList = true
  unique : ∀ {given owner other}, Owns events ledger given owner →
    Owns events ledger given other → owner = other

/-- An empty ledger is coherent: no name has an owner. -/
theorem Coherent.empty : Coherent [] {} := by
  have none (given : String) (owner : Owner) : ¬ Owns [] {} given owner := by
    rintro (h | h | h) <;> simp at h
  constructor
  · intro _ _ _ h
    simp at h
  · intro _ _ h
    simp at h
  · intro given owner h
    exact absurd h (none given owner)
  · intro given owner h
    exact absurd h (none given owner)
  · intro given owner h
    exact absurd h (none given owner)
  · intro given owner other h
    exact absurd h (none given owner)

variable {events : List Event} {e : Event}

/-- One more event keeps names coherent if all old answers hold, its own answer holds, and the
only new owner, if there is one, has a fresh name. -/
theorem Coherent.concat (coherent : Coherent events ledger) (raw : String) (owner : Owner)
    (taken : ledger.names.taken ⊆ after.names.taken)
    (lookup : ∀ {category raw given}, ledger.names.lookup category raw = some given →
      after.names.lookup category raw = some given)
    (helper : ∀ {key given}, ledger.definitions.helperNames.get? key = some given →
      after.definitions.helperNames.get? key = some given)
    (named : ∀ {category raw given}, e = .name category raw given →
      after.names.lookup category raw = some given)
    (helped : ∀ {h given}, e = .helper h given →
      after.definitions.helperNames.get? (Helper.key h) = some given)
    (owned : ∀ {given other}, Owns (events ++ [e]) after given other →
      Owns events ledger given other ∨
        given = ledger.names.fresh raw ∧ other = owner ∧ given ∈ after.names.taken) :
    Coherent (events ++ [e]) after := by
  constructor
  · intro category raw given h
    rcases List.mem_append.mp h with h | h
    · exact lookup (coherent.named h)
    · exact named (List.mem_singleton.mp h).symm
  · intro h given hm
    rcases List.mem_append.mp hm with hm | hm
    · exact helper (coherent.helped hm)
    · exact helped (List.mem_singleton.mp hm).symm
  · intro given other h
    rcases owned h with h | ⟨-, -, h⟩
    · exact taken (coherent.taken h)
    · exact h
  · intro given other h
    rcases owned h with h | ⟨rfl, -⟩
    · exact coherent.unreserved h
    · exact ledger.names.fresh_not_mem_reservedWords raw
  · intro given other h
    rcases owned h with h | ⟨rfl, -⟩
    · exact coherent.spelled h
    · exact ledger.names.isIdentifier_fresh raw
  · intro given a b ha hb
    -- A fresh name has no owner yet, so the two owners are both old or both new.
    rcases owned ha with ha | ⟨rfl, rfl, -⟩ <;> rcases owned hb with hb | ⟨hnew, rfl, -⟩
    · exact coherent.unique ha hb
    · exact absurd (coherent.taken ha) (hnew ▸ ledger.names.fresh_not_mem_taken raw)
    · exact absurd (coherent.taken hb) (ledger.names.fresh_not_mem_taken raw)
    · rfl

/-- A name that a temporary has was a temporary before, or the last event asked for it. -/
theorem temporary_concat {given : String} {index : Nat}
    (h : (events ++ [e])[index]? = some (.temporary given)) :
    events[index]? = some (.temporary given) ∨ index = events.length ∧ e = .temporary given := by
  rcases Nat.lt_or_ge index events.length with hlt | hge
  · rw [List.getElem?_append_left hlt] at h
    exact .inl h
  · rw [List.getElem?_append_right hge, List.getElem?_singleton] at h
    split at h
    · next hz => exact .inr ⟨by omega, Option.some.inj h⟩
    · simp at h

/-- Any other event leaves the temporaries as they are. -/
theorem temporary_of_concat {given : String} {index : Nat}
    (h : (events ++ [e])[index]? = some (.temporary given)) (other : ∀ given, e ≠ .temporary given) :
    events[index]? = some (.temporary given) := by
  rcases temporary_concat h with h | ⟨-, h⟩
  · exact h
  · exact absurd h (other _)

/-- An event that asks for no name, or for one that is known, keeps names coherent. -/
theorem Coherent.concat_known (coherent : Coherent events ledger)
    (names : after.names = ledger.names)
    (helpers : after.definitions.helperNames = ledger.definitions.helperNames)
    (named : ∀ {category raw given}, e = .name category raw given →
      ledger.names.lookup category raw = some given)
    (helped : ∀ {h given}, e = .helper h given →
      ledger.definitions.helperNames.get? (Helper.key h) = some given)
    (noTemporary : ∀ given, e ≠ .temporary given) :
    Coherent (events ++ [e]) after := by
  apply coherent.concat "" (.helper "")
  · rw [names]
    exact fun _ h => h
  · intro _ _ _ h
    rw [names, h]
  · intro _ _ h
    rw [helpers, h]
  · intro _ _ _ h
    rw [names, named h]
  · intro _ _ h
    rw [helpers, helped h]
  · rintro given other (h | h | h)
    · exact .inl (.entry (names ▸ h))
    · exact .inl (.helper (helpers ▸ h))
    · exact .inl (.temporary (temporary_of_concat h noTemporary))

theorem Coherent.concat_name (coherent : Coherent events ledger) (category : NameCategory)
    (raw : String) :
    Coherent (events ++ [.name category raw (ledger.getName category raw).1])
      (ledger.getName category raw).2 := by
  rcases getName_cases ledger category raw with ⟨known, hk, he⟩ | ⟨hk, he⟩
  · rw [he]
    refine coherent.concat_known rfl rfl (fun h => ?_) nofun nofun
    obtain ⟨rfl, rfl, rfl⟩ := Event.name.inj h
    exact hk
  · rw [he]
    apply coherent.concat raw (.entry category raw)
    · exact List.subset_cons_self _ _
    · intro c r given h
      rw [Names.lookup_cons, if_neg, h]
      rintro ⟨rfl, rfl⟩
      rw [hk] at h
      simp at h
    · exact id
    · intro _ _ _ h
      obtain ⟨rfl, rfl, rfl⟩ := Event.name.inj h
      rw [Names.lookup_cons, if_pos ⟨rfl, rfl⟩]
    · intro _ _ h
      exact Event.noConfusion h
    · rintro given other (h | h | h)
      · rw [Names.lookup_cons] at h
        split at h
        · next hc =>
            obtain ⟨rfl, rfl⟩ := hc
            obtain rfl := Option.some.inj h
            exact .inr ⟨rfl, rfl, List.mem_cons_self⟩
        · exact .inl (.entry h)
      · exact .inl (.helper h)
      · exact .inl (.temporary (temporary_of_concat h nofun))

theorem Coherent.concat_temporary (coherent : Coherent events ledger) (base : String) :
    Coherent (events ++ [.temporary (ledger.distinctName base).1])
      (ledger.distinctName base).2 := by
  apply coherent.concat base (.temporary events.length)
  · exact List.subset_cons_self _ _
  · exact id
  · exact id
  · intro _ _ _ h
    exact Event.noConfusion h
  · intro _ _ h
    exact Event.noConfusion h
  · rintro given other (h | h | h)
    · exact .inl (.entry h)
    · exact .inl (.helper h)
    · rcases temporary_concat h with h | ⟨rfl, hlast⟩
      · exact .inl (.temporary h)
      · obtain rfl := Event.temporary.inj hlast
        exact .inr ⟨rfl, rfl, List.mem_cons_self⟩

theorem Coherent.concat_helper (coherent : Coherent events ledger) (h : Helper)
    (indent : String) :
    Coherent (events ++ [.helper h (ledger.provide h indent).1])
      (ledger.provide h indent).2 := by
  rcases provide_cases ledger h indent with ⟨known, hk, he⟩ | ⟨hk, after, he, hn, hh⟩
  · rw [he]
    refine coherent.concat_known rfl rfl nofun (fun h' => ?_) nofun
    obtain ⟨rfl, rfl⟩ := Event.helper.inj h'
    exact hk
  · rw [he]
    apply coherent.concat h.key (.helper h.key)
    · rw [hn]
      exact List.subset_cons_self _ _
    · intro _ _ _ h'
      rw [hn]
      exact h'
    · intro key given h'
      have hne : h.key ≠ key := by
        rintro rfl
        rw [hk] at h'
        simp at h'
      rw [hh, Table.get?_put_of_ne _ _ hne, h']
    · intro _ _ _ h'
      exact Event.noConfusion h'
    · intro _ _ h'
      obtain ⟨rfl, rfl⟩ := Event.helper.inj h'
      rw [hh, Table.get?_put_self]
    · rintro given other (h' | @⟨key, h'⟩ | h')
      · rw [hn] at h'
        exact .inl (.entry h')
      · rw [hh] at h'
        by_cases hkey : h.key = key
        · subst hkey
          rw [Table.get?_put_self] at h'
          obtain rfl := Option.some.inj h'
          exact .inr ⟨rfl, rfl, hn ▸ List.mem_cons_self⟩
        · rw [Table.get?_put_of_ne _ _ hkey] at h'
          exact .inl (.helper h')
      · exact .inl (.temporary (temporary_of_concat h' nofun))

/-- Every event keeps names coherent. -/
theorem Coherent.step (coherent : Coherent events ledger) (h : Step indent ledger e after) :
    Coherent (events ++ [e]) after := by
  cases h with
  | name category raw => exact coherent.concat_name category raw
  | temporary base => exact coherent.concat_temporary base
  | helper h => exact coherent.concat_helper h indent
  | require | declare | define | clearWidgets | addWidget =>
      exact coherent.concat_known rfl rfl nofun nofun nofun

/-- Any number of events keeps names coherent. -/
theorem Coherent.steps (coherent : Coherent events ledger) {new : List Event}
    (h : Steps indent ledger new after) : Coherent (events ++ new) after := by
  induction h generalizing events with
  | refl => rwa [List.append_nil]
  | cons head _ ih =>
      have next := ih (coherent.step head)
      rwa [List.append_assoc, List.singleton_append] at next

/-- Names are coherent also for the first of several events. -/
theorem Coherent.of_append {new : List Event} (coherent : Coherent (events ++ new) ledger) :
    Coherent events ledger := by
  have owned {given : String} {owner : Owner} (h : Owns events ledger given owner) :
      Owns (events ++ new) ledger given owner := by
    rcases h with h | h | @⟨index, h⟩
    · exact .entry h
    · exact .helper h
    · have hlt : index < events.length := (List.getElem?_eq_some_iff.mp h).1
      exact .temporary (by rw [List.getElem?_append_left hlt, h])
  exact
    { named := fun h => coherent.named (List.mem_append_left _ h)
      helped := fun h => coherent.helped (List.mem_append_left _ h)
      taken := fun h => coherent.taken (owned h)
      unreserved := fun h => coherent.unreserved (owned h)
      spelled := fun h => coherent.spelled (owned h)
      unique := fun h h' => coherent.unique (owned h) (owned h') }

end Ledger

end BlockScript
