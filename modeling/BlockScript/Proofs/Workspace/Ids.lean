import BlockScript.Proofs.Generator.Recovery
import BlockScript.Proofs.Workspace.Numbering
import BlockScript.Proofs.Workspace.SavedJson
import BlockScript.Workspace.Format

/-! # Ids of loaded blocks

A document holds blocks within blocks, with an id or without one. The loaded blocks have the saved
ids, and numbers for ids where none was saved. The numbers differ, but no one looks whether a number
is among the saved ids: a workspace repeats an id where it is. -/

namespace BlockScript

open Loading

namespace Block

/-- The ids in a table of inputs. -/
def inputIds (inputs : List (String × Block)) : List String :=
  inputs.flatMap fun input => input.2.ids

theorem ids_eq (b : Block) :
    b.ids = b.node.id ::
      (inputIds b.values ++ (inputIds b.statements ++ b.next.toList.flatMap ids)) := by
  rw [ids, walk_eq, walkInputs_eq, walkInputs_eq, List.map_cons, List.map_append, List.map_append,
    List.map_flatMap, List.map_flatMap]
  cases b.next <;> simp [walkNext, inputIds, ids]

theorem ids_leaf (node : Node) : ids { node } = [node.id] := ids_eq { node }

/-- An id is nowhere more often than in what replaces it and in what is added. -/
theorem count_inputIds_put (id name : String) (inputs : Table Block) (child : Block) :
    (inputIds (inputs.put name child)).count id ≤
      (inputIds inputs).count id + child.ids.count id := by
  induction inputs with
  | nil => simp [Table.put, inputIds]
  | cons input rest ih =>
      rw [Table.put]
      simp only [inputIds] at ih
      split <;> simp only [inputIds, List.flatMap_cons, List.count_append] <;> omega

theorem count_ids (id : String) (b : Block) :
    b.ids.count id = [b.node.id].count id + (inputIds b.values).count id +
      (inputIds b.statements).count id + (b.next.toList.flatMap ids).count id := by
  rw [ids_eq, ← List.singleton_append, List.count_append, List.count_append, List.count_append]
  omega

variable (b child : Block) (name : String)

theorem ids_putValue : (b.putValue name child).ids.Subperm (b.ids ++ child.ids) := by
  refine List.subperm_ext_iff.mpr fun id _ => ?_
  have put := count_inputIds_put id name b.values child
  rw [List.count_append, count_ids, count_ids id b]
  simp only [putValue]
  omega

theorem ids_putStatement : (b.putStatement name child).ids.Subperm (b.ids ++ child.ids) := by
  refine List.subperm_ext_iff.mpr fun id _ => ?_
  have put := count_inputIds_put id name b.statements child
  rw [List.count_append, count_ids, count_ids id b]
  simp only [putStatement]
  omega

theorem ids_putNext : ({ b with next := some child } : Block).ids.Subperm (b.ids ++ child.ids) := by
  refine List.subperm_ext_iff.mpr fun id _ => ?_
  rw [List.count_append, count_ids, count_ids id b]
  simp only [Option.toList_some, List.flatMap_singleton]
  omega

/-- What a block shows apart from its id does not count. -/
theorem ids_of_node {node : Node} (same : node.id = b.node.id) :
    ({ b with node } : Block).ids = b.ids := by
  rw [ids_eq, ids_eq b, same]

end Block

namespace Workspace.OfXml
open Xml (Element)

/-! The blocks of an XML document. -/

/-- The element of the block inside an element. -/
def heldElement (e : Element) : Option Element := (e.child? "block").or (e.child? "shadow")

/-- The element of the block that a child element plugs into its block. -/
def pluggedElement (child : Element) : Option Element :=
  if child.name = "value" ∨ child.name = "statement" ∨ child.name = "next" then heldElement child
  else none

/-- The elements of the blocks right below a block, in order. -/
def parts (e : Element) : List Element := e.children.filterMap pluggedElement

theorem sizeOf_lt_of_mem_children {e child : Element} (h : child ∈ e.children) :
    sizeOf child < sizeOf e := by
  have := List.sizeOf_lt_of_mem h
  cases e
  simp only [Element.mk.sizeOf_spec]
  simp only at this
  omega

theorem mem_children_of_heldElement {e held : Element} (h : heldElement e = some held) :
    held ∈ e.children := by
  rcases Option.or_eq_some_iff.mp h with found | ⟨-, found⟩ <;>
  exact List.mem_of_find?_eq_some found

theorem sizeOf_lt_of_mem_parts {e part : Element} (h : part ∈ parts e) :
    sizeOf part < sizeOf e := by
  obtain ⟨child, member, plugged⟩ := List.mem_filterMap.mp h
  rw [pluggedElement] at plugged
  split at plugged
  · exact (sizeOf_lt_of_mem_children (mem_children_of_heldElement plugged)).trans
      (sizeOf_lt_of_mem_children member)
  · exact nomatch plugged

/-- The ids that are saved with a block and with all below it, in order; an empty one is none. -/
def savedIds (e : Element) : List (Option String) :=
  (e.attribute? "id").filter (· ≠ "") :: (parts e).attach.flatMap fun part => savedIds part.1
termination_by sizeOf e
decreasing_by exact sizeOf_lt_of_mem_parts part.2

theorem savedIds_eq (e : Element) :
    savedIds e = (e.attribute? "id").filter (· ≠ "") :: (parts e).flatMap savedIds := by
  conv_rhs => rw [← List.attach_map_subtype_val (parts e), List.flatMap_map]
  rw [savedIds]

theorem heldBlock_eq (e : Element) :
    heldBlock (e.children.map view) = (heldElement e).map fun held => (view held).block := by
  have named (name : String) :
      (e.children.map view).find? (fun v => v.element.name = name) = (e.child? name).map view := by
    simp only [List.find?_map, Element.child?, Function.comp_def, view_element]
  simp only [heldBlock, named, heldElement, ← Option.map_or, Option.map_map]
  rfl

/-- The ids that are saved with the block that a child element plugs in. -/
def pluggedIds (child : Element) : List (Option String) :=
  ((pluggedElement child).map savedIds).getD []

theorem flatMap_parts (children : List Element) :
    (children.filterMap pluggedElement).flatMap savedIds = children.flatMap pluggedIds := by
  induction children with
  | nil => rfl
  | cons child rest ih =>
      rw [List.filterMap_cons, List.flatMap_cons, pluggedIds, ← ih]
      cases pluggedElement child <;> rfl

/-- A child element adds the ids of what it plugs in. -/
theorem takes_addChild (b : Block) {child : Element}
    (h : ∀ part ∈ pluggedElement child, Takes [] (view part).block Block.ids (savedIds part)) :
    Takes b.ids (addChild b (view child)) Block.ids (pluggedIds child) := by
  have nothing (other : ¬ (child.name = "value" ∨ child.name = "statement" ∨ child.name = "next")) :
      pluggedIds child = [] := by
    rw [pluggedIds, pluggedElement, if_neg other]
    rfl
  have holds (holder : child.name = "value" ∨ child.name = "statement" ∨ child.name = "next") :
      pluggedElement child = heldElement child := if_pos holder
  simp only [addChild, view_element, view_held, heldBlock_eq]
  split
  · next name =>
      rw [nothing (by simp [name])]
      exact .pure (b.ids_of_node rfl ▸ .refl _)
  · next name =>
      rw [nothing (by simp [name])]
      exact Takes.require.bind fun _ => .pure (b.ids_of_node rfl ▸ .refl _)
  · next name =>
      rw [nothing (by simp [name])]
      exact .pure (b.ids_of_node rfl ▸ .refl _)
  · next name =>
      rw [holds (.inl name)] at h
      rw [pluggedIds, holds (.inl name)]
      exact Takes.require.bind fun name => .plug h (b.ids_putValue · name)
  · next name =>
      rw [holds (.inr (.inl name))] at h
      rw [pluggedIds, holds (.inr (.inl name))]
      exact Takes.require.bind fun name => .plug h (b.ids_putStatement · name)
  · next name =>
      rw [holds (.inr (.inr name))] at h
      rw [pluggedIds, holds (.inr (.inr name))]
      exact .plug h b.ids_putNext
  · next other =>
      rw [nothing (by tauto)]
      exact .pure (.refl _)

theorem takes_foldlM (b : Block) {children : List Element}
    (h : ∀ child ∈ children, ∀ part ∈ pluggedElement child,
      Takes [] (view part).block Block.ids (savedIds part)) :
    Takes b.ids ((children.map view).foldlM addChild b) Block.ids
      (children.flatMap pluggedIds) := by
  induction children generalizing b with
  | nil => exact .pure (.refl _)
  | cons child rest ih =>
      obtain ⟨first, others⟩ := List.forall_mem_cons.mp h
      rw [List.map_cons, List.foldlM_cons, List.flatMap_cons]
      exact (takes_addChild b first).bind fun b' => ih b' others

theorem takes_nodeOf (e : Element) :
    Takes [] (nodeOf e) (fun n => [n.id]) [(e.attribute? "id").filter (· ≠ "")] :=
  Takes.require.bind fun _ => Takes.takeId.bind fun _ => .pure (.refl _)

/-- The block of an element takes the ids that are saved with it and with all below it. -/
theorem takes_view (e : Element) : Takes [] (view e).block Block.ids (savedIds e) := by
  rw [view_block, savedIds_eq, parts, flatMap_parts]
  refine (takes_nodeOf e).bind fun node => ?_
  rw [← Block.ids_leaf node]
  refine takes_foldlM { node } fun child member part plugged => ?_
  have := sizeOf_lt_of_mem_parts (List.mem_filterMap.mpr ⟨child, member, plugged⟩)
  exact takes_view part
termination_by sizeOf e

end Workspace.OfXml

namespace Table
variable {α : Type} {value : α}

theorem mem_values_of_mem_insertKey {key : String} {given : α} {t : Table α}
    (h : value ∈ values (insertKey key given t)) : value = given ∨ value ∈ values t := by
  induction t with
  | nil => exact .inl (List.mem_singleton.mp h)
  | cons e rest ih =>
      rw [insertKey] at h
      split at h
      · exact List.mem_cons.mp h
      · split at h
        · rcases List.mem_cons.mp h with rfl | h
          · exact .inr List.mem_cons_self
          · exact (ih h).imp_right (List.mem_cons_of_mem _)
        · exact (List.mem_cons.mp h).imp_right (List.mem_cons_of_mem _)

theorem mem_values_of_mem_foldl_insertKey {t sorted : Table α}
    (h : value ∈ values (t.foldl (fun sorted e => insertKey e.1 e.2 sorted) sorted)) :
    value ∈ values sorted ∨ value ∈ values t := by
  induction t generalizing sorted with
  | nil => exact .inl h
  | cons e rest ih =>
      rcases ih h with h | h
      · rcases mem_values_of_mem_insertKey h with rfl | h
        · exact .inr List.mem_cons_self
        · exact .inl h
      · exact .inr (List.mem_cons_of_mem _ h)

/-- Sorting adds no value. -/
theorem mem_values_of_mem_sortByKey {t : Table α} (h : value ∈ values (sortByKey t)) :
    value ∈ values t :=
  (mem_values_of_mem_foldl_insertKey h).resolve_left List.not_mem_nil

end Table

namespace Workspace.OfJson
open Json (Value)

/-! The blocks of a JSON document. -/

/-- The value of the block that a value connects to. -/
def connectedValue (v : Value) : Option Value := (v.get? "block").or (v.get? "shadow")

/-- The connections in the inputs of a block, in order of their names. -/
def inputMembers (v : Value) : List (String × Value) :=
  ((v.get? "inputs").bind Value.asObject?).getD []

/-- The values of the blocks right below a block, in order. -/
def parts (v : Value) : List Value :=
  (inputMembers v).filterMap (fun m => connectedValue m.2) ++
    ((v.get? "next").bind connectedValue).toList

theorem sizeOf_lt_of_get? {v held : Value} {name : String} (h : v.get? name = some held) :
    sizeOf held < sizeOf v := by
  cases v with
  | object members =>
      have member := List.mem_reverse.mp (Table.mem_of_get? h)
      have := List.sizeOf_lt_of_mem member
      simp only [Prod.mk.sizeOf_spec] at this
      simp only [Value.object.sizeOf_spec]
      omega
  | _ => exact nomatch h

theorem sizeOf_lt_of_connectedValue {v held : Value} (h : connectedValue v = some held) :
    sizeOf held < sizeOf v := by
  rcases Option.or_eq_some_iff.mp h with found | ⟨-, found⟩ <;> exact sizeOf_lt_of_get? found

theorem sizeOf_lt_of_mem_inputMembers {v : Value} {m : String × Value} (h : m ∈ inputMembers v) :
    sizeOf m.2 < sizeOf v := by
  rw [inputMembers] at h
  cases found : v.get? "inputs" with
  | none => simp [found] at h
  | some inputs =>
      refine Nat.lt_trans ?_ (sizeOf_lt_of_get? found)
      cases inputs with
      | object members =>
          have member : m.2 ∈ Table.values members := by
            rw [found] at h
            exact Table.mem_values_of_mem_sortByKey
              (Value.sortedMembers_eq members ▸ List.mem_map_of_mem h)
          obtain ⟨e, he, same⟩ := List.mem_map.mp member
          have := List.sizeOf_lt_of_mem he
          rw [← same, Value.object.sizeOf_spec]
          cases e
          simp only [Prod.mk.sizeOf_spec] at this
          simp only
          omega
      | _ => simp [found, Value.asObject?] at h

theorem sizeOf_lt_of_mem_parts {v part : Value} (h : part ∈ parts v) : sizeOf part < sizeOf v := by
  rcases List.mem_append.mp h with h | h
  · obtain ⟨m, member, connected⟩ := List.mem_filterMap.mp h
    exact (sizeOf_lt_of_connectedValue connected).trans (sizeOf_lt_of_mem_inputMembers member)
  · obtain ⟨next, found, connected⟩ := Option.bind_eq_some_iff.mp (Option.mem_toList.mp h)
    exact (sizeOf_lt_of_connectedValue connected).trans (sizeOf_lt_of_get? found)

/-- The ids that are saved with a block and with all below it, in order; an empty one is none. -/
def savedIds (v : Value) : List (Option String) :=
  ((v.get? "id").bind Value.asString?).filter (· ≠ "") ::
    (parts v).attach.flatMap fun part => savedIds part.1
termination_by sizeOf v
decreasing_by exact sizeOf_lt_of_mem_parts part.2

theorem savedIds_eq (v : Value) :
    savedIds v = ((v.get? "id").bind Value.asString?).filter (· ≠ "") ::
      (parts v).flatMap savedIds := by
  conv_rhs => rw [← List.attach_map_subtype_val (parts v), List.flatMap_map]
  rw [savedIds]

variable {declared : List Variable}

theorem member?_view (members : List (String × Value)) (name : String) :
    member? (viewAll declared members) name =
      ((Value.object members).get? name).map (view declared) := by
  rw [member?, viewAll_eq_map, ← List.map_reverse, Table.get?_map]
  rfl

theorem connected_view (v : Value) :
    (view declared v).connected =
      (connectedValue v).map fun held => (view declared held).block := by
  cases v with
  | object members =>
      rw [view, connectedBlock, member?_view, member?_view, connectedValue, ← Option.map_or,
        Option.map_map]
      rfl
  | _ => rfl

theorem inputs_view (v : Value) :
    (((v.get? "inputs").map (view declared)).map View.inputs).getD [] =
      (inputMembers v).map fun m => (m.1, (view declared m.2).connected) := by
  rw [inputMembers]
  cases v.get? "inputs" with
  | none => rfl
  | some inputs =>
      cases inputs with
      | object members =>
          have sorted := Table.sortByKey_map (fun v => (view declared v).connected) members
          rw [Option.map_some, Option.map_some, Option.getD_some, view_inputs, sorted,
            ← Value.sortedMembers_eq]
          rfl
      | _ => rfl

theorem next_view (v : Value) :
    ((v.get? "next").map (view declared)).bind View.connected =
      ((v.get? "next").bind connectedValue).map fun held => (view declared held).block := by
  cases v.get? "next" with
  | none => rfl
  | some next => exact connected_view next

/-- The ids that are saved with the block that a value connects to. -/
def connectedIds (v : Value) : List (Option String) := ((connectedValue v).map savedIds).getD []

theorem flatMap_parts (v : Value) :
    (parts v).flatMap savedIds =
      ((inputMembers v).flatMap fun m => connectedIds m.2) ++
        (((v.get? "next").bind connectedValue).map savedIds).getD [] := by
  have inputs (members : List (String × Value)) :
      (members.filterMap fun m => connectedValue m.2).flatMap savedIds =
        members.flatMap fun m => connectedIds m.2 := by
    induction members with
    | nil => rfl
    | cons m rest ih =>
        rw [List.filterMap_cons, List.flatMap_cons, connectedIds, ← ih]
        cases connectedValue m.2 <;> rfl
  rw [parts, List.flatMap_append, inputs]
  cases (v.get? "next").bind connectedValue <;> simp

/-- Does the block of a value take the ids that are saved with it and with all below it? -/
def TakesIds (declared : List Variable) (v : Value) : Prop :=
  Takes [] (view declared v).block Block.ids (savedIds v)

theorem takes_addInput (b : Block) {name : String} {v : Value}
    (h : ∀ held ∈ connectedValue v, TakesIds declared held) :
    Takes b.ids (addInput b (name, (view declared v).connected)) Block.ids (connectedIds v) := by
  rw [connected_view, connectedIds]
  cases known : Kind.ofTypeName? b.node.kindName with
  | none =>
      simp only [addInput, known]
      exact .plug h (b.ids_putValue · name)
  | some kind =>
      by_cases statement : kind.isStatementInput name = true
      · simp only [addInput, known, if_pos statement]
        exact .plug h (b.ids_putStatement · name)
      · simp only [addInput, known, if_neg statement]
        exact .plug h (b.ids_putValue · name)

theorem takes_inputs (b : Block) {members : List (String × Value)}
    (h : ∀ m ∈ members, ∀ held ∈ connectedValue m.2, TakesIds declared held) :
    Takes b.ids
      ((members.map fun m => (m.1, (view declared m.2).connected)).foldlM addInput b) Block.ids
      (members.flatMap fun m => connectedIds m.2) := by
  induction members generalizing b with
  | nil => exact .pure (.refl _)
  | cons m rest ih =>
      obtain ⟨first, others⟩ := List.forall_mem_cons.mp h
      rw [List.map_cons, List.foldlM_cons, List.flatMap_cons]
      exact (takes_addInput b first).bind fun b' => ih b' others

theorem takes_nodeOf (v : Value) :
    Takes [] (nodeOf declared v) (fun n => [n.id])
      [((v.get? "id").bind Value.asString?).filter (· ≠ "")] :=
  Takes.require.bind fun _ => Takes.takeId.bind fun _ => .pure (.refl _)

theorem takes_mutationOf (start : List String) (v : Value) :
    Takes start (mutationOf v) (fun _ => start) [] := by
  cases v with
  | string text =>
      rw [mutationOf]
      cases Xml.read text with
      | none => exact .fail
      | some e => exact .pure (.refl _)
  | object members => exact .pure (.refl _)
  | _ => exact .fail

/-- The blocks right below a block are those in its inputs and the one that follows it. -/
theorem takes_parts (b : Block) {v : Value} (h : ∀ part ∈ parts v, TakesIds declared part) :
    Takes b.ids
      (do
        let inputs := (inputMembers v).map fun m => (m.1, (view declared m.2).connected)
        let b ← inputs.foldlM addInput b
        match ((v.get? "next").bind connectedValue).map fun held => (view declared held).block with
        | none => pure b
        | some step => return { b with next := some (← step) })
      Block.ids ((parts v).flatMap savedIds) := by
  have inputs : ∀ m ∈ inputMembers v, ∀ held ∈ connectedValue m.2, TakesIds declared held :=
    fun m member held connected =>
      h held (List.mem_append_left _ (List.mem_filterMap.mpr ⟨m, member, connected⟩))
  have next : ∀ held ∈ (v.get? "next").bind connectedValue, TakesIds declared held :=
    fun held connected => h held (List.mem_append_right _ (Option.mem_toList.mpr connected))
  rw [flatMap_parts]
  exact (takes_inputs b inputs).bind fun b => .plug next b.ids_putNext

/-- A block takes the ids that are saved with it, if the blocks right below it do. -/
theorem takesIds_of_parts {v : Value} (h : ∀ part ∈ parts v, TakesIds declared part) :
    TakesIds declared v := by
  cases v with
  | object members =>
      rw [TakesIds, savedIds_eq, view, blockOf, member?_view, member?_view, inputs_view, next_view]
      refine (takes_nodeOf (.object members)).bind fun node => ?_
      cases (Value.object members).get? "extraState" with
      | none =>
          rw [← Block.ids_leaf { node with mutation := {} }]
          exact takes_parts _ h
      | some state =>
          refine (takes_mutationOf [node.id] state).bind fun mutation => ?_
          rw [← Block.ids_leaf { node with mutation }]
          exact takes_parts _ h
  | _ => exact .fail

/-- The block of a value takes the ids that are saved with it and with all below it. -/
theorem takes_view (v : Value) : TakesIds declared v :=
  takesIds_of_parts fun part h =>
    have := sizeOf_lt_of_mem_parts h
    takes_view part
termination_by sizeOf v

end Workspace.OfJson

namespace Workspace

/-- The ids that are saved with the blocks of a document, in order. -/
def OfXml.documentIds (root : Xml.Element) : List (Option String) :=
  (root.children.filter fun e => isBlockName e.name).flatMap savedIds

def OfJson.documentIds (root : Json.Value) : List (Option String) :=
  ((topBlocks root).toOption.getD []).flatMap savedIds

/-- The ids that are saved with the blocks in a text. -/
def savedIds (format : WorkspaceFormat) (text : String) : List (Option String) :=
  match format with
  | .xml => ((Xml.read text).map OfXml.documentIds).getD []
  | .json => ((Json.read text).map OfJson.documentIds).getD []

variable {format : WorkspaceFormat} {text : String} {w : Workspace}

theorem walk_ids_perm (w : Workspace) : (w.walk.map Node.id).Perm (Block.idsOf w.blocks) := by
  rw [walk, List.map_flatMap]
  exact (inOrder_perm w.blocks).flatMap_right _

/-- Blocks get their ids from the saved ones and from the numbers. -/
def GetIds (w : Workspace) (saved : List (Option String)) : Prop :=
  (Block.idsOf w.blocks).Subperm (saved.reduceOption ++ madeIds 0 saved)

theorem getIds_of_result {step : Loading (List Block)} {saved : List (Option String)}
    {blocks : List Block} (takes : Takes [] step Block.idsOf saved)
    (h : Loading.result step = .ok blocks) (declared : List Variable) :
    GetIds { blocks, declared } saved := by
  rw [Loading.result] at h
  cases run : step.run 0 with
  | error e => simp [run, Except.map] at h
  | ok pair =>
      obtain ⟨found, last⟩ := pair
      rw [run] at h
      obtain rfl := Except.ok.inj h
      exact (takes 0 found last run).1.trans (idsFrom_perm 0 saved).subperm

theorem exists_of_bind_eq_ok {α β : Type} {first : Except LoadError α}
    {next : α → Except LoadError β} {b : β} (h : (first >>= next) = .ok b) :
    ∃ a, first = .ok a ∧ next a = .ok b := by
  cases first with
  | error e => exact nomatch h
  | ok a => exact ⟨a, rfl, h⟩

theorem OfXml.getIds {root : Xml.Element} (h : workspaceOf root = .ok w) :
    w.GetIds (documentIds root) := by
  have tops : (viewAll root.children).filter (fun v => isBlockName v.element.name) =
      (root.children.filter fun e => isBlockName e.name).map view := by
    simp only [viewAll_eq_map, List.filter_map, Function.comp_def, view_element]
  rw [workspaceOf, tops, List.mapM_map] at h
  obtain ⟨blocks, loaded, h⟩ := exists_of_bind_eq_ok h
  obtain rfl := Except.ok.inj h
  exact getIds_of_result (Takes.mapM fun e _ => takes_view e) loaded _

theorem OfJson.getIds {root : Json.Value} (h : workspaceOf root = .ok w) :
    w.GetIds (documentIds root) := by
  cases root with
  | object members =>
      obtain ⟨tops, found, h⟩ := exists_of_bind_eq_ok h
      obtain ⟨blocks, loaded, h⟩ := exists_of_bind_eq_ok h
      obtain rfl := Except.ok.inj h
      rw [documentIds, found]
      exact getIds_of_result (Takes.mapM fun v _ => takes_view v) loaded _
  | _ => exact nomatch h

theorem getIds_of_load (h : Workspace.load format text = .ok w) :
    w.GetIds (savedIds format text) := by
  cases format with
  | xml =>
      rw [load, OfXml.load] at h
      rw [savedIds]
      cases found : Xml.read text with
      | none => simp [found] at h
      | some root =>
          rw [found] at h
          exact OfXml.getIds h
  | json =>
      rw [load, OfJson.load] at h
      rw [savedIds]
      cases found : Json.read text with
      | none => simp [found] at h
      | some root =>
          rw [found] at h
          exact OfJson.getIds h

/-- The ids of a loaded workspace are among those that are saved in its text and the numbers of the
blocks without one. If the saved ids differ, so do all, unless a saved one is such a number; and if
no block gives way to another in its input, then only so. -/
theorem load_ids (h : Workspace.load format text = .ok w)
    (distinct : (savedIds format text).reduceOption.Nodup) :
    let saved := savedIds format text
    (w.walk.map Node.id).Subperm (saved.reduceOption ++ madeIds 0 saved) ∧
      (saved.reduceOption.Disjoint (madeIds 0 saved) → (w.walk.map Node.id).Nodup) ∧
      (w.walk.length = saved.length →
        ((w.walk.map Node.id).Nodup ↔ saved.reduceOption.Disjoint (madeIds 0 saved))) := by
  intro saved
  have within : (w.walk.map Node.id).Subperm (saved.reduceOption ++ madeIds 0 saved) :=
    (walk_ids_perm w).subperm.trans (getIds_of_load h)
  have differ : (saved.reduceOption ++ madeIds 0 saved).Nodup ↔
      saved.reduceOption.Disjoint (madeIds 0 saved) := by
    rw [List.nodup_append']
    exact ⟨fun all => all.2.2, fun disjoint => ⟨distinct, nodup_madeIds 0 saved, disjoint⟩⟩
  refine ⟨within, fun disjoint => ?_, fun kept => ?_⟩
  · obtain ⟨ids, perm, sub⟩ := within
    exact perm.nodup_iff.mp ((differ.mpr disjoint).sublist sub)
  · have counted :
        (saved.reduceOption ++ madeIds 0 saved).length ≤ (w.walk.map Node.id).length := by
      rw [← (idsFrom_perm 0 saved).length_eq, length_idsFrom, List.length_map, kept]
    rw [← differ]
    exact (within.perm_of_length_le counted).nodup_iff

theorem load_ids_mixed :
    let text := "<xml><block type='text' id='a'/><block type='text'/></xml>"
    savedIds .xml text = [some "a", none] ∧
      ∃ w, Workspace.load .xml text = .ok w ∧ (w.walk.map Node.id).Nodup := by
  intro text
  have saved : savedIds .xml text = [some "a", none] := by decide +kernel
  have run : (Workspace.load .xml text).toOption.any (fun _ => true) = true := by decide +kernel
  obtain ⟨w, loaded, -⟩ := exists_ok_of_any run
  have distinct : (savedIds .xml text).reduceOption.Nodup := by
    rw [saved]
    decide
  refine ⟨saved, w, loaded, (load_ids loaded distinct).2.1 ?_⟩
  rw [saved]
  have apart : ∀ id ∈ [some "a", none].reduceOption, id ∉ madeIds 0 [some "a", none] := by decide
  exact fun id given made => apart id given made

/-- A saved id that is a number's is given out again. -/
theorem load_repeats :
    let text := "<xml><block type='text' id='__block1'/><block type='text'/></xml>"
    (savedIds .xml text).reduceOption.Nodup ∧
      ∃ w, Workspace.load .xml text = .ok w ∧ w.walk.map Node.id = ["__block1", "__block1"] ∧
        ¬ (w.walk.map Node.id).Nodup := by
  intro text
  have run : (Workspace.load .xml text).toOption.any
      (fun w => decide (w.walk.map Node.id = ["__block1", "__block1"])) = true := by
    decide +kernel
  obtain ⟨w, loaded, ids⟩ := exists_ok_of_any run
  have ids := of_decide_eq_true ids
  refine ⟨by decide +kernel, w, loaded, ids, ?_⟩
  rw [ids]
  decide

end Workspace

end BlockScript
