import BlockScript.Proofs.Workspace.Saved

/-! # Saved blocks as XML

The element of a tree of blocks loads as the block that the tree stands for. -/

namespace BlockScript

open Table Saved
open Xml (Element)

/-- The id that was saved is taken if it is not empty. -/
theorem Loading.takeId_some {id : String} (h : id ≠ "") : takeId (some id) = pure id := by
  have kept : (some id).filter (· ≠ "") = some id := by simp [Option.filter, h]
  funext made
  rw [takeId, kept]
  rfl

namespace Block

/-- Plug a block into an input of either sort. -/
def plug (b : Block) (input : Input Block) : Block :=
  if input.statement then b.putStatement input.name input.content
  else b.putValue input.name input.content

theorem foldl_plug (inputs : List (Input Block)) (b : Block) :
    inputs.foldl plug b =
      { b with
        values := (part false inputs).foldl (fun t w => Table.put t w.1 w.2) b.values
        statements := (part true inputs).foldl (fun t w => Table.put t w.1 w.2) b.statements } := by
  induction inputs generalizing b with
  | nil => cases b; rfl
  | cons i rest ih =>
      obtain ⟨name, statement, content⟩ := i
      cases statement <;> rw [List.foldl_cons, ih] <;> rfl

theorem foldl_putField (fields : Table Field) (b : Block) :
    fields.foldl (fun b f => b.putField f.1 f.2.written) b =
      { b with
        node.fields := (fields.map fun f => (f.1, f.2.written)).foldl
          (fun t w => Table.put t w.1 w.2) b.node.fields } := by
  induction fields generalizing b with
  | nil => cases b; rfl
  | cons f rest ih => rw [List.foldl_cons, ih]; rfl

end Block

namespace Saved

theorem keys_part_sublist {α : Type} (statement : Bool) (inputs : List (Input α)) :
    (keys (part statement inputs)).Sublist (inputs.map Input.name) := by
  induction inputs with
  | nil => exact .slnil
  | cons i rest ih =>
      by_cases h : i.statement = statement
      · simpa [part, h] using ih.cons_cons i.name
      · simpa [part, h] using ih.cons i.name

theorem map_name_blockInputs (inputs : List (Input (Plug Tree))) :
    (blockInputs inputs).map Input.name = inputs.map Input.name := by
  induction inputs with
  | nil => rfl
  | cons i rest ih => exact congrArg (i.name :: ·) ih

/-- Inputs with names of their own all stay when they are plugged in one after the other. -/
theorem foldl_plug_eq {inputs : List (Input Block)} (names : (inputs.map Input.name).Nodup)
    (node : Node) :
    inputs.foldl Block.plug { node } =
      { node, values := part false inputs, statements := part true inputs } := by
  have distinct (statement : Bool) : (keys (part statement inputs)).Nodup :=
    names.sublist (keys_part_sublist statement inputs)
  rw [Block.foldl_plug, foldl_put (distinct false), foldl_put (distinct true)]
  rfl

end Saved

namespace Workspace.OfXml

theorem view_element (e : Element) : (view e).element = e := by
  cases e; rfl

theorem viewAll_eq_map (es : List Element) : viewAll es = es.map view := by
  induction es with
  | nil => rfl
  | cons e rest ih => exact congrArg (view e :: ·) ih

theorem view_block (e : Element) : (view e).block = blockOf e (e.children.map view) := by
  cases e
  rw [view, viewAll_eq_map]

theorem view_held (e : Element) : (view e).held = heldBlock (e.children.map view) := by
  cases e
  rw [view, viewAll_eq_map]

/-! What child elements say, one after the other. -/

/-- The elements, taken in one after the other, turn one block into another. -/
def Tells (es : List Element) (b b' : Block) : Prop :=
  (es.map view).foldlM addChild b = pure b'

namespace Tells
variable {e : Element} {es es' : List Element} {b b' b'' : Block}

theorem nil : Tells [] b b := rfl

theorem cons (head : addChild b (view e) = pure b') (tail : Tells es b' b'') :
    Tells (e :: es) b b'' := by
  rw [Tells, List.map_cons, List.foldlM_cons, head, pure_bind]
  exact tail

theorem append (front : Tells es b b') (back : Tells es' b' b'') : Tells (es ++ es') b b'' := by
  rw [Tells, List.map_append, List.foldlM_append, front, pure_bind]
  exact back

end Tells

theorem mutationOf_xml (m : Shape) : mutationOf m.xml = m.mutation := by
  have attributes : (m.table Attribute.all).foldr insertSorted [] = m.table Attribute.ordered := by
    refine foldr_insertSorted_eq (m.table_perm Attribute.all_perm_ordered)
      (List.pairwise_filterMap.mpr (List.pairwise_map.mpr ?_))
    refine Attribute.pairwise_ordered.imp fun {a b} lt x hx y hy => ?_
    obtain ⟨s, -, rfl⟩ := Option.map_eq_some_iff.mp hx
    obtain ⟨s', -, rfl⟩ := Option.map_eq_some_iff.mp hy
    exact lt
  have args : (m.xml.children.filter fun child => child.name = "arg").filterMap (fun child =>
      child.attribute? "name") = m.parameters.map Variable.name := by
    simp [Shape.xml, List.filter_map, List.filterMap_map, Function.comp_def, Element.attribute?,
      get?]
  exact congrArg₂ Mutation.mk attributes args

theorem tells_shape (shape : Option Shape) (n : Node) :
    Tells (shape.map Shape.xml).toList { node := { n with mutation := {} } }
      { node := { n with mutation := (shape.map Shape.mutation).getD {} } } := by
  cases shape with
  | none => exact .nil
  | some m =>
      have taken (b : Block) : addChild b (view m.xml) = pure (b.withMutation m.mutation) :=
        congrArg (fun mutation => pure (b.withMutation mutation)) (mutationOf_xml m)
      exact .cons (taken _) .nil

theorem tells_fields {fields : Table Field} (distinct : (keys fields).Nodup) (n : Node) :
    Tells (fields.map fun f => f.2.xml f.1) { node := { n with fields := [] } }
      { node := { n with fields := fields.map fun f => (f.1, f.2.written) } } := by
  have told (b : Block) : Tells (fields.map fun f => f.2.xml f.1) b
      (fields.foldl (fun b f => b.putField f.1 f.2.written) b) := by
    clear distinct
    induction fields generalizing b with
    | nil => exact .nil
    | cons f rest ih =>
        have taken : addChild b (view (f.2.xml f.1)) = pure (b.putField f.1 f.2.written) := by
          obtain ⟨name, _ | _⟩ := f <;> rfl
        exact .cons taken (ih _)
  have result := told { node := { n with fields := [] } }
  rw [Block.foldl_putField, foldl_put (by rw [List.nil_append, keys_map]; exact distinct)] at result
  exact result

theorem tells_comment (comment : Option String) (n : Node) :
    Tells (comment.map Data.xmlComment).toList { node := { n with comment := none } }
      { node := { n with comment } } := by
  cases comment with
  | none => exact .nil
  | some text => exact .cons rfl .nil

/-- The children of an element add to its attributes all else that a block shows. -/
theorem tells_data {data : Data} (distinct : (keys data.fields).Nodup) :
    Tells data.xmlChildren
      { node := { data.node with fields := [], mutation := {}, comment := none } }
      { node := data.node } := by
  have shape := tells_shape data.shape { data.node with fields := [], comment := none }
  have fields := tells_fields distinct { data.node with comment := none }
  exact (shape.append fields).append (tells_comment data.comment data.node)

theorem nodeOf_xml {declared : List Variable} {data : Data} (h : data.WellFormed declared)
    (s : Spelling) (tag : String) (children : List Element) :
    nodeOf { name := tag, attributes := data.xmlAttributes s, children } =
      pure { data.node with fields := [], mutation := {}, comment := none } := by
  have entry (key : String) : get? (data.xmlAttributes s) key =
      (get? ([("type", some data.kind.typeName), ("id", some data.id),
        ("x", data.x.map toString), ("y", data.y.map toString)] ++
        s.marks data.disabled "true" "false") key).join :=
    get?_present (by simp [Spelling.marks]) key
  have coordinate {n? : Option Int} (bounded : ∀ n ∈ n?, n.natAbs ≤ Number.Binary64.exactBound) :
      (n?.map toString).bind Number.readCoordinate = n? := by
    cases n? with
    | none => rfl
    | some n =>
        rw [Option.map_some, Option.bind_some]
        exact Number.readCoordinate_toString (bounded n rfl)
  cases s <;> cases off : data.disabled <;>
    simp [nodeOf, Element.attribute?, entry, get?, Spelling.marks, Loading.require,
      Loading.takeId_some h.id, coordinate h.x, coordinate h.y, Data.node, off]

/-! The blocks in a tree. -/

/-- Does a tree, saved under any tag, load as its block? -/
def Loads (s : Spelling) (t : Tree) : Prop :=
  ∀ tag, (view (t.xml s tag)).block = pure t.block

theorem name_xml (s : Spelling) (t : Tree) (tag : String) : (t.xml s tag).name = tag := by
  cases t; rfl

theorem heldBlock_xmlPlug {s : Spelling} {plug : Plug Tree} (child : Loads s plug.child) :
    heldBlock ((xmlPlug s plug).map view) = some (pure (blockPlug plug)) := by
  cases plug with
  | block block behind =>
      have loaded : (view (block.xml s "block")).block = pure block.block := child "block"
      cases behind <;>
        simpa [xmlPlug, xmlShadow, heldBlock, view_element, name_xml, blockPlug] using loaded
  | shadow shadow =>
      have loaded : (view (shadow.xml s "shadow")).block = pure shadow.block := child "shadow"
      simpa [xmlPlug, heldBlock, view_element, name_xml, blockPlug] using loaded

theorem tells_inputs {s : Spelling} {inputs : List (Input (Plug Tree))}
    (children : ∀ i ∈ inputs, Loads s i.content.child) (b : Block) :
    Tells (xmlInputs s inputs) b ((blockInputs inputs).foldl Block.plug b) := by
  induction inputs generalizing b with
  | nil => exact .nil
  | cons i rest ih =>
      obtain ⟨first, others⟩ := List.forall_mem_cons.mp children
      obtain ⟨name, statement, plug⟩ := i
      have held := heldBlock_xmlPlug first
      refine .cons ?_ (ih others (b.plug ⟨name, statement, blockPlug plug⟩))
      cases statement <;>
        simp [addChild, view_element, view_held, held, requiredName, Element.attribute?, get?,
          Loading.require, Block.plug]

theorem tells_next {s : Spelling} {next : Option (Plug Tree)}
    (following : ∀ plug ∈ next, Loads s plug.child) {b : Block} (bare : b.next = none) :
    Tells (xmlNext s next) b { b with next := blockNext next } := by
  cases next with
  | none => cases b; cases bare; exact .nil
  | some plug =>
      have held := heldBlock_xmlPlug (following plug rfl)
      refine .cons ?_ .nil
      simp [addChild, view_element, view_held, held, blockNext]

/-- A well-formed tree that is saved as XML loads as its block. -/
theorem view_xml {declared : List Variable} {t : Tree} (h : t.WellFormed declared)
    (s : Spelling) : Loads s t := by
  induction h with
  | @mk data inputs next well names sorts _ _ children following =>
      intro tag
      have plugged := tells_inputs children { node := data.node }
      rw [foldl_plug_eq (map_name_blockInputs inputs ▸ names)] at plugged
      rw [view_block, blockOf, Tree.xml, nodeOf_xml well, pure_bind]
      exact (tells_data well.fields).append (plugged.append (tells_next following rfl))

end Workspace.OfXml

end BlockScript
