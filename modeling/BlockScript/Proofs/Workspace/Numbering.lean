import Mathlib.Data.List.Nodup
import Mathlib.Data.List.Perm.Subperm
import Mathlib.Data.List.ReduceOption
import BlockScript.Proofs.Names.Fresh
import BlockScript.Proofs.Workspace.Filed

/-! # Ids by number

A loading step takes one id after another: the saved one where there is one, and the next number
elsewhere. So the ids that a step takes are known from those that were saved and from the number of
ids made before it, and they repeat only where a saved id is that of a number. -/

namespace BlockScript

namespace Block

/-- The ids of a block and of all below it. -/
def ids (b : Block) : List String := b.walk.map Node.id

/-- The ids of blocks and of all below them. -/
def idsOf (blocks : List Block) : List String := blocks.flatMap ids

end Block

namespace Loading

/-- The ids of blocks in order, if so many were made before: those that were saved, and numbers for
the others. -/
def idsFrom (made : Nat) : List (Option String) → List String
  | [] => []
  | some id :: rest => id :: idsFrom made rest
  | none :: rest => numberedId (made + 1) :: idsFrom (made + 1) rest

/-- How many blocks have no saved id. -/
def unnamed (saved : List (Option String)) : Nat := saved.count none

variable {α β : Type} {made : Nat} {saved saved' : List (Option String)} {start : List String}

theorem idsFrom_append (made : Nat) (saved saved' : List (Option String)) :
    idsFrom made (saved ++ saved') =
      idsFrom made saved ++ idsFrom (made + unnamed saved) saved' := by
  induction saved generalizing made with
  | nil => rfl
  | cons given rest ih =>
      cases given with
      | some id => simp [idsFrom, ih, unnamed]
      | none => simp [idsFrom, ih, unnamed, Nat.add_assoc, Nat.add_comm 1]

theorem length_idsFrom (made : Nat) (saved : List (Option String)) :
    (idsFrom made saved).length = saved.length := by
  induction saved generalizing made with
  | nil => rfl
  | cons given rest ih => cases given <;> simp [idsFrom, ih]

/-- The ids made for the blocks without a saved one. -/
def madeIds (made : Nat) (saved : List (Option String)) : List String :=
  (List.range' (made + 1) (unnamed saved)).map numberedId

theorem idsFrom_perm (made : Nat) (saved : List (Option String)) :
    (idsFrom made saved).Perm (saved.reduceOption ++ madeIds made saved) := by
  induction saved generalizing made with
  | nil => exact .refl _
  | cons given rest ih =>
      cases given with
      | some id =>
          rw [idsFrom, List.reduceOption_cons_of_some, List.cons_append]
          simpa [madeIds, unnamed] using (ih made).cons id
      | none =>
          rw [idsFrom, List.reduceOption_cons_of_none]
          refine ((ih (made + 1)).cons _).trans ?_
          have counted : unnamed (none :: rest) = unnamed rest + 1 := by simp [unnamed]
          rw [madeIds, madeIds, counted, List.range'_succ, List.map_cons]
          exact List.perm_middle.symm

theorem numberedId_injective : Function.Injective numberedId := by
  intro m n same
  exact Names.toString_injective ((String.append_right_inj _).mp same)

theorem nodup_madeIds (made : Nat) (saved : List (Option String)) : (madeIds made saved).Nodup :=
  List.Nodup.map numberedId_injective List.nodup_range'

/-- A step takes ids for some saved ones, on top of those that it starts with. Not all of them have
to be in its result. -/
def Takes (start : List String) (step : Loading α) (ids : α → List String)
    (saved : List (Option String)) : Prop :=
  ∀ made a last, step made = .ok (a, last) →
    (ids a).Subperm (start ++ idsFrom made saved) ∧ last = made + unnamed saved

namespace Takes
variable {step : Loading α} {ids : α → List String}

theorem pure {a : α} (h : (ids a).Subperm start) : Takes start (pure a) ids [] := by
  intro made b last run
  obtain ⟨rfl, rfl⟩ := pure_eq_ok.mp run
  exact ⟨by rwa [idsFrom, List.append_nil], rfl⟩

theorem fail {error : LoadError} : Takes start (fail error) ids saved :=
  fun _ _ _ run => absurd run not_fail

theorem require {value : Option α} {error : LoadError} :
    Takes start (require value error) (fun _ => start) [] := by
  cases value with
  | none => exact fail
  | some a => exact pure (.refl start)

theorem takeId {given : Option String} :
    Takes start (takeId given) (fun id => start ++ [id]) [given.filter (· ≠ "")] := by
  intro made id last run
  rw [Loading.takeId] at run
  cases found : given.filter (· ≠ "") with
  | none | some =>
      rw [found] at run
      obtain ⟨rfl, rfl⟩ := Prod.mk.inj (Except.ok.inj run)
      exact ⟨.refl _, rfl⟩

/-- Of two steps in a row the second starts with what the first leaves. -/
theorem bind {next : α → Loading β} {ids' : β → List String} (head : Takes start step ids saved)
    (tail : ∀ a, Takes (ids a) (next a) ids' saved') :
    Takes start (step >>= next) ids' (saved ++ saved') := by
  intro made b last run
  obtain ⟨a, mid, first, second⟩ := bind_eq_ok.mp run
  obtain ⟨within, rfl⟩ := head made a mid first
  obtain ⟨within', rfl⟩ := tail a _ b last second
  constructor
  · rw [idsFrom_append, ← List.append_assoc]
    exact within'.trans ((List.subperm_append_right _).mpr within)
  · simp [unnamed, Nat.add_assoc]

/-- What is there before a step stays there. -/
theorem frame (h : Takes [] step ids saved) (start : List String) :
    Takes start step (fun a => start ++ ids a) saved := by
  intro made a last run
  obtain ⟨within, counted⟩ := h made a last run
  exact ⟨(List.subperm_append_left start).mpr within, counted⟩

section Documents
variable {δ : Type} {load : δ → Loading Block} {savedIds : δ → List (Option String)}

/-- The block that a document holds, if there is one, goes into another block. -/
theorem plug {b : Block} {held : Option δ} {place : Block → Block}
    (h : ∀ d ∈ held, Takes [] (load d) Block.ids (savedIds d))
    (within : ∀ child, (place child).ids.Subperm (b.ids ++ child.ids)) :
    Takes b.ids
      (match held.map load with
      | none => Pure.pure b
      | some step => step >>= fun child => Pure.pure (place child))
      Block.ids ((held.map savedIds).getD []) := by
  cases held with
  | none => exact pure (.refl _)
  | some d =>
      rw [Option.map_some, Option.map_some, Option.getD_some, ← List.append_nil (savedIds d)]
      exact ((h d rfl).frame b.ids).bind fun child => pure (within child)

/-- Blocks are loaded one after another. -/
theorem mapM {docs : List δ} (h : ∀ d ∈ docs, Takes [] (load d) Block.ids (savedIds d)) :
    Takes [] (docs.mapM load) Block.idsOf (docs.flatMap savedIds) := by
  induction docs with
  | nil => exact pure (.refl _)
  | cons d rest ih =>
      obtain ⟨first, others⟩ := List.forall_mem_cons.mp h
      rw [List.mapM_cons, List.flatMap_cons]
      refine first.bind fun b => ?_
      rw [← List.append_nil (rest.flatMap savedIds)]
      exact ((ih others).frame b.ids).bind fun bs => pure (.refl _)

end Documents

end Takes

end Loading

end BlockScript
