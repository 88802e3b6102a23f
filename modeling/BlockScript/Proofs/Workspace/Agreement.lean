import Mathlib.Data.List.Forall2
import BlockScript.Workspace

/-! # Blocks that agree

Two blocks agree if they are equal up to the order of the entries in their tables: of fields, of
attributes of mutations and of inputs. -/

namespace BlockScript

namespace Table
variable {α β : Type} {R : α → β → Prop}

/-- Two entries have one key and related values. -/
inductive EntryRel (R : α → β → Prop) : String × α → String × β → Prop
  | intro {key : String} {a : α} {b : β} (related : R a b) : EntryRel R (key, a) (key, b)

theorem keys_eq_of_forall₂ {t : Table α} {t' : Table β} (h : List.Forall₂ (EntryRel R) t t') :
    keys t = keys t' := by
  induction h with
  | nil => rfl
  | cons first _ ih =>
      cases first
      exact congrArg _ ih

/-- The entries of two tables are related one to one, in any order. -/
inductive Rel (R : α → β → Prop) : Table α → Table β → Prop
  | intro {moved : Table β} {t : Table α} {t' : Table β}
      (related : List.Forall₂ (EntryRel R) t moved) (perm : moved.Perm t') : Rel R t t'

/-- Entries may be chosen by their keys. -/
theorem Rel.filter {t : Table α} {t' : Table β} (h : Rel R t t') (p : String → Bool) :
    Rel R (t.filter fun e => p e.1) (t'.filter fun e => p e.1) := by
  obtain ⟨related, perm⟩ := h
  refine ⟨List.rel_filter (fun e e' same => ?_) related, perm.filter _⟩
  cases same
  exact Iff.rfl

end Table

open Table

/-- Two nodes are equal up to the order of fields and of attributes. -/
structure Node.Agree (a b : Node) : Prop where
  fields : a.fields.Perm b.fields
  attributes : a.mutation.attributes.Perm b.mutation.attributes
  rest : b = { a with
    fields := b.fields
    mutation := { a.mutation with attributes := b.mutation.attributes } }

/-- Two blocks are equal up to the order of fields, of attributes and of inputs, and so are the
blocks in them. -/
inductive Block.Agree : Block → Block → Prop
  | intro {b b' : Block} (node : b.node.Agree b'.node) (values : Table.Rel Agree b.values b'.values)
      (statements : Table.Rel Agree b.statements b'.statements)
      (next : Option.Rel Agree b.next b'.next) : Agree b b'

/-- Two workspaces declare the same variables and have blocks that agree, in the same order. -/
structure Workspace.Agree (w w' : Workspace) : Prop where
  blocks : List.Forall₂ Block.Agree w.blocks w'.blocks
  declared : w'.declared = w.declared

end BlockScript
