import BlockScript.Proofs.Workspace.Agreement
import BlockScript.Proofs.Workspace.SavedXml

/-! # Saved blocks as JSON

The object of a tree of blocks loads as a block that agrees with the one that the tree stands for.
Members are read in order of their names, so that the tables of the two may differ in order. -/

namespace BlockScript

open Table Saved
open Json (Value)

theorem Kind.ofTypeName?_typeName (kind : Kind) : ofTypeName? kind.typeName = some kind := by
  have distinct : (all.map typeName).Nodup := by decide +kernel
  have known : (ofTypeName? kind.typeName).isSome :=
    List.find?_isSome.mpr ⟨kind, mem_all kind, decide_eq_true rfl⟩
  obtain ⟨other, found⟩ := Option.isSome_iff_exists.mp known
  obtain rfl := List.inj_on_of_nodup_map distinct (mem_all other) (mem_all kind)
    (typeName_of_ofTypeName? found)
  exact found

theorem Json.Value.get?_object {members : Table Value} (distinct : (keys members).Nodup)
    (name : String) : (Value.object members).get? name = members.get? name :=
  get?_reverse distinct name

namespace Workspace.OfJson

/-! What members say. -/

section Views
variable (declared : List Variable)

theorem viewAll_eq_map (members : Table Value) :
    viewAll declared members = members.map fun m => (m.1, view declared m.2) := by
  induction members with
  | nil => rfl
  | cons m rest ih => exact congrArg ((m.1, view declared m.2) :: ·) ih

theorem member?_viewAll {members : Table Value} (distinct : (keys members).Nodup) (name : String) :
    member? (viewAll declared members) name = (members.get? name).map (view declared) := by
  rw [member?, viewAll_eq_map, ← List.map_reverse, get?_map, get?_reverse distinct]

theorem view_inputs (members : Table Value) :
    (view declared (.object members)).inputs =
      sortByKey (members.map fun m => (m.1, (view declared m.2).connected)) := by
  rw [view, sortedInputs_eq, viewAll_eq_map, List.map_map]
  rfl

end Views

theorem fieldText_json {declared : List Variable} {f : Field} (h : f.IsDeclared declared) :
    fieldText declared f.json = f.written := by
  cases f with
  | scalar s => cases s <;> rfl
  | reference v =>
      have found : (declared.find? fun x => x.id = v.id) = some v := h
      simp [fieldText, Field.json, Value.get?, get?, Value.asString?, found, Field.written]

/-- The attribute that a member of a mutation writes, if it writes one. -/
def attributeWrite (m : String × Value) : Option (String × String) :=
  if m.1 = "params" then none
  else m.2.scalarText?.map fun text => (attributeName m.1, text)

/-- The arguments that a member of a mutation adds. -/
def addedArgs (m : String × Value) : List String :=
  if m.1 = "params" then parameterNames m.2 else []

theorem foldl_addState (members : Table Value) (m : Mutation) :
    members.foldl (fun m s => addState m s.1 s.2) m =
      { attributes := (members.filterMap attributeWrite).foldl (fun t w => t.put w.1 w.2)
          m.attributes
        args := m.args ++ members.flatMap addedArgs } := by
  induction members generalizing m with
  | nil => simp
  | cons s rest ih =>
      rw [List.foldl_cons, ih, addState]
      by_cases params : s.1 = "params"
      · simp [attributeWrite, addedArgs, params]
      · cases text : s.2.scalarText? <;> simp [attributeWrite, addedArgs, params, text]

/-- Only the parameters are arguments, and they stand in one member. -/
theorem flatMap_addedArgs {members : Table Value} (distinct : (keys members).Nodup) :
    members.flatMap addedArgs = ((members.get? "params").map parameterNames).getD [] := by
  induction members with
  | nil => rfl
  | cons s rest ih =>
      rw [keys_cons, List.nodup_cons] at distinct
      rw [List.flatMap_cons, ih distinct.2, get?]
      by_cases params : s.1 = "params"
      · have missing : get? rest "params" = none :=
          (get?_eq_none_iff rest "params").mpr (params ▸ distinct.1)
        simp [addedArgs, params, missing]
      · simp [addedArgs, params]

section Shape
variable (m : Shape)

theorem nodup_keys_members : (keys (present m.members)).Nodup := by
  refine (keys_present_sublist _).nodup ?_
  simp [Shape.members, Attribute.all, Attribute.jsonName]

/-- The members write the attributes that XML has. -/
theorem filterMap_attributeWrite :
    (present m.members).filterMap attributeWrite = m.table Attribute.all := by
  have written (a : Attribute) :
      (((m.given a).map Scalar.json).map fun v => (a.jsonName, v)).bind attributeWrite =
        ((m.given a).map Scalar.written).map fun text => (a.xmlName, text) := by
    cases m.given a with
    | none => rfl
    | some s => cases a <;> cases s <;> rfl
  have noAttribute (params : Option Value) :
      (params.map fun v => ("params", v)).bind attributeWrite = none := by
    cases params <;> rfl
  simp only [present, Shape.members, Shape.table, List.filterMap_filterMap, List.filterMap_append,
    List.filterMap_map, Function.comp_def, written]
  simp [noAttribute]

theorem parameterNames_parameters :
    parameterNames (.array (m.parameters.map Shape.parameter)) =
      m.parameters.map Variable.name := by
  simp [parameterNames, Value.asArray?, Shape.parameter, List.filterMap_map, Function.comp_def,
    Value.get?, get?, Value.asString?]

/-- The members add the arguments that XML has. -/
theorem args_members :
    (((present m.members).get? "params").map parameterNames).getD [] =
      m.parameters.map Variable.name := by
  have names : (keys m.members).Nodup := by
    simp [Shape.members, Attribute.all, Attribute.jsonName]
  have params : get? m.members "params" = some (if m.parameters.isEmpty then none
      else some (.array (m.parameters.map Shape.parameter))) := by
    simp [Shape.members, Attribute.all, Attribute.jsonName, get?]
  rw [get?_present names, params, ← parameterNames_parameters]
  cases m.parameters <;> rfl

end Shape

theorem mutationOf_json (m : Shape) :
    ∃ attributes, mutationOf m.json = pure { m.mutation with attributes } ∧
      m.mutation.attributes.Perm attributes := by
  have distinct := nodup_keys_members m
  have sorted := sortByKey_perm distinct
  have writes : ((sortByKey (present m.members)).filterMap attributeWrite).Perm
      (m.table Attribute.all) := filterMap_attributeWrite m ▸ sorted.filterMap _
  have names : (keys (m.table Attribute.all)).Nodup :=
    (keys_present_sublist _).nodup (by simp [Attribute.all, Attribute.xmlName])
  have args : (sortByKey (present m.members)).flatMap addedArgs = m.mutation.args := by
    rw [flatMap_addedArgs (nodup_keys_sortByKey distinct),
      get?_eq_of_perm sorted (nodup_keys_sortByKey distinct)]
    exact args_members m
  refine ⟨(sortByKey (present m.members)).filterMap attributeWrite, ?_,
    (m.table_perm Attribute.all_perm_ordered.symm).trans writes.symm⟩
  rw [Shape.json, mutationOf, Value.sortedMembers_eq, foldl_addState, args]
  exact congrArg (fun attributes => (pure { m.mutation with attributes } : Loading Mutation))
    (ofWrites_eq_self ((writes.map Prod.fst).nodup_iff.mpr names))

theorem asObject?_nonempty (members : Table Value) :
    ((nonempty members).bind Value.asObject?).getD [] = sortByKey members := by
  cases members with
  | nil => rfl
  | cons m rest => exact Value.sortedMembers_eq (m :: rest)

section Node
variable {declared : List Variable} {data : Data}

theorem fields_json (h : data.WellFormed declared) :
    ofWrites ((sortByKey (data.fields.map fun f => (f.1, f.2.json))).map fun f =>
      (f.1, fieldText declared f.2)) =
      (sortByKey data.fields).map fun f => (f.1, f.2.written) := by
  have text : (sortByKey data.fields).map (fun f => (f.1, fieldText declared f.2.json)) =
      (sortByKey data.fields).map fun f => (f.1, f.2.written) := by
    refine List.map_congr_left fun f hf => ?_
    rw [fieldText_json (h.references f ((sortByKey_perm h.fields).mem_iff.mp hf))]
  have distinct : (keys ((sortByKey data.fields).map fun f => (f.1, f.2.written))).Nodup := by
    rw [keys_map]
    exact nodup_keys_sortByKey h.fields
  rw [sortByKey_map, List.map_map]
  exact (congrArg ofWrites text).trans (ofWrites_eq_self distinct)

variable (declared data)
variable (s : Spelling) (inputs : Table Value) (next : Option Value)

theorem nodup_keys_jsonMembers : (keys (data.jsonMembers s inputs next)).Nodup := by
  simp [Data.jsonMembers, Spelling.marks]

theorem get?_json (key : String) :
    (Value.object (present (data.jsonMembers s inputs next))).get? key =
      (get? (data.jsonMembers s inputs next) key).join := by
  have distinct := nodup_keys_jsonMembers data s inputs next
  rw [Value.get?_object ((keys_present_sublist _).nodup distinct), get?_present distinct]

theorem member?_json (key : String) :
    member? (viewAll declared (present (data.jsonMembers s inputs next))) key =
      (get? (data.jsonMembers s inputs next) key).join.map (view declared) := by
  have distinct := nodup_keys_jsonMembers data s inputs next
  rw [member?_viewAll declared ((keys_present_sublist _).nodup distinct), get?_present distinct]

variable {declared data}

theorem nodeOf_json (h : data.WellFormed declared) :
    nodeOf declared (.object (present (data.jsonMembers s inputs next))) =
      pure { data.node with
        fields := (sortByKey data.fields).map fun f => (f.1, f.2.written)
        mutation := {} } := by
  have rounded {n? : Option Int} (bounded : ∀ n ∈ n?, n.natAbs ≤ Number.Binary64.exactBound) :
      ((n?.map Value.integer).bind Value.asNumber?).map Number.Binary64.roundInt64 = n? := by
    cases n? with
    | none => rfl
    | some n => exact congrArg some (Number.Binary64.roundInt64_ofInt (bounded n rfl))
  have entry := get?_json data s inputs next
  generalize Value.object (present (data.jsonMembers s inputs next)) = v at entry ⊢
  have comment : commentOf v = data.comment := by
    have icons : v.get? "icons" = data.comment.map Data.jsonComment := by
      simp [entry, Data.jsonMembers, get?]
    rw [commentOf, icons]
    cases data.comment <;> rfl
  have fields : ((v.get? "fields").bind Value.asObject?).getD [] =
      sortByKey (data.fields.map fun f => (f.1, f.2.json)) := by
    rw [← asObject?_nonempty]
    simp [entry, Data.jsonMembers, get?]
  simp only [nodeOf, coordinate, fields, fields_json h, comment]
  cases s <;> cases off : data.disabled <;>
    simp [entry, Data.jsonMembers, get?, Spelling.marks, Loading.require, Loading.takeId_some h.id,
      rounded h.x, rounded h.y, Data.node, off, Value.asString?, Value.asBool?]

theorem inputs_nonempty (members : Table Value) :
    ((nonempty members).map fun v => (view declared v).inputs).getD [] =
      sortByKey (members.map fun m => (m.1, (view declared m.2).connected)) := by
  cases members with
  | nil => rfl
  | cons m rest => exact view_inputs declared (m :: rest)

/-- How the object of a block is read: what the block shows itself, and then what connects to it. -/
theorem block_json (h : data.WellFormed declared) :
    (view declared (.object (present (data.jsonMembers s inputs next)))).block = (do
      let mutation ← (data.shape.map fun m => mutationOf m.json).getD (pure {})
      let b ← (sortByKey (inputs.map fun m => (m.1, (view declared m.2).connected))).foldlM addInput
        { node := { data.node with
          fields := (sortByKey data.fields).map fun f => (f.1, f.2.written)
          mutation } }
      match next.bind fun v => (view declared v).connected with
      | none => pure b
      | some step => return { b with next := some (← step) }) := by
  have state : (Value.object (present (data.jsonMembers s inputs next))).get? "extraState" =
      data.shape.map Shape.json := by
    rw [get?_json]
    simp [Data.jsonMembers, get?]
  have inputsSeen : ((member? (viewAll declared (present (data.jsonMembers s inputs next)))
      "inputs").map View.inputs).getD [] =
      sortByKey (inputs.map fun m => (m.1, (view declared m.2).connected)) := by
    rw [member?_json, ← inputs_nonempty]
    simp [Data.jsonMembers, get?, Function.comp_def]
  have nextSeen : (member? (viewAll declared (present (data.jsonMembers s inputs next)))
      "next").bind View.connected = next.bind fun v => (view declared v).connected := by
    rw [member?_json]
    cases next <;> simp [Data.jsonMembers, get?]
  rw [view, blockOf, nodeOf_json s inputs next h, pure_bind, state, inputsSeen, nextSeen]
  cases data.shape <;> rfl

end Node

/-! The blocks in a tree. -/

/-- Does a tree load as a block that agrees with its own? -/
def Loads (declared : List Variable) (s : Spelling) (t : Tree) : Prop :=
  ∃ b, (view declared (t.json s)).block = pure b ∧ t.block.Agree b

section Tree
variable {declared : List Variable} {s : Spelling}

/-- Of a block and a shadow the block is taken. -/
theorem connected_jsonPlug {plug : Plug Tree} (child : Loads declared s plug.child) :
    ∃ b, (view declared (jsonPlug s plug)).connected = some (pure b) ∧
      (blockPlug plug).Agree b := by
  obtain ⟨b, loaded, agree⟩ := child
  have connected {members : Table Value} (distinct : (keys members).Nodup) :
      (view declared (.object members)).connected =
        ((members.get? "block").or (members.get? "shadow")).map (View.block ∘ view declared) := by
    rw [view, connectedBlock, member?_viewAll declared distinct, member?_viewAll declared distinct]
    cases members.get? "block" <;> simp
  cases plug with
  | block block behind =>
      refine ⟨b, ?_, agree⟩
      have names :
          (keys [("shadow", jsonShadow s behind), ("block", some (block.json s))]).Nodup := by
        simp
      rw [jsonPlug, connected ((keys_present_sublist _).nodup names), get?_present names]
      exact congrArg some loaded
  | shadow shadow =>
      refine ⟨b, ?_, agree⟩
      rw [jsonPlug, connected (by simp)]
      exact congrArg some loaded

/-- The inputs of a block as a table. -/
def entries {α : Type} (inputs : List (Input α)) : Table α :=
  inputs.map fun i => (i.name, i.content)

theorem keys_entries {α : Type} (inputs : List (Input α)) :
    keys (entries inputs) = inputs.map Input.name := by
  simp [entries, keys, Function.comp_def]

theorem connected_jsonInputs {inputs : List (Input (Plug Tree))}
    (children : ∀ i ∈ inputs, Loads declared s i.content.child) :
    ∃ loaded : Table Block,
      List.Forall₂ (EntryRel Block.Agree) (entries (blockInputs inputs)) loaded ∧
      (jsonInputs s inputs).map (fun m => (m.1, (view declared m.2).connected)) =
        loaded.map fun e => (e.1, some (pure e.2)) := by
  induction inputs with
  | nil => exact ⟨[], .nil, rfl⟩
  | cons i rest ih =>
      obtain ⟨first, others⟩ := List.forall_mem_cons.mp children
      obtain ⟨b, connected, agree⟩ := connected_jsonPlug first
      obtain ⟨loaded, related, seen⟩ := ih others
      refine ⟨(i.name, b) :: loaded, .cons (.intro agree) related, ?_⟩
      exact congrArg₂ (fun step rest => (i.name, step) :: rest) connected seen

/-- What is in an input, for statements or for a value as the kind of the block says. -/
def byKind (kind : Kind) (e : String × Block) : Input Block :=
  ⟨e.1, kind.isStatementInput e.1, e.2⟩

theorem addInput_eq {kind : Kind} {b : Block} (known : b.node.kindName = kind.typeName)
    (e : String × Block) :
    addInput b (e.1, some (pure e.2)) = pure (b.plug (byKind kind e)) := by
  simp only [addInput, known, Kind.ofTypeName?_typeName, pure_bind, byKind, Block.plug]
  exact (apply_ite pure _ _ _).symm

theorem foldlM_addInput {kind : Kind} {b : Block} (known : b.node.kindName = kind.typeName)
    (loaded : Table Block) :
    (loaded.map fun e => (e.1, some (pure e.2))).foldlM addInput b =
      pure ((loaded.map (byKind kind)).foldl Block.plug b) := by
  induction loaded generalizing b with
  | nil => rfl
  | cons e rest ih =>
      have same : (b.plug (byKind kind e)).node = b.node := by
        rw [Block.plug]
        split <;> rfl
      rw [List.map_cons, List.foldlM_cons, addInput_eq known, pure_bind]
      exact ih (same ▸ known)

/-- Inputs with names of their own all stay. -/
theorem foldlM_addInput_eq {kind : Kind} (node : Node) (known : node.kindName = kind.typeName)
    {loaded : Table Block} (distinct : (keys loaded).Nodup) :
    (loaded.map fun e => (e.1, some (pure e.2))).foldlM addInput { node } =
      (pure { node
              values := part false (loaded.map (byKind kind))
              statements := part true (loaded.map (byKind kind)) } : Loading Block) := by
  have names : ((loaded.map (byKind kind)).map Input.name).Nodup := by
    rw [List.map_map]
    exact distinct
  rw [foldlM_addInput known, foldl_plug_eq names]

theorem part_byKind (kind : Kind) (statement : Bool) (t : Table Block) :
    part statement (t.map (byKind kind)) =
      t.filter fun e => kind.isStatementInput e.1 == statement := by
  induction t with
  | nil => rfl
  | cons e rest ih =>
      by_cases h : kind.isStatementInput e.1 = statement
      · simpa [part, byKind, h] using ih
      · simpa [part, byKind, h] using ih

theorem map_byKind_entries {kind : Kind} {inputs : List (Input (Plug Tree))}
    (sorts : ∀ i ∈ inputs, i.statement = kind.isStatementInput i.name) :
    (entries (blockInputs inputs)).map (byKind kind) = blockInputs inputs := by
  induction inputs with
  | nil => rfl
  | cons i rest ih =>
      obtain ⟨first, others⟩ := List.forall_mem_cons.mp sorts
      obtain ⟨name, statement, plug⟩ := i
      obtain rfl : statement = kind.isStatementInput name := first
      exact congrArg (_ :: ·) (ih others)

theorem mutation_json (data : Data) :
    ∃ attributes, (data.shape.map fun m => mutationOf m.json).getD (pure {}) =
      pure { data.node.mutation with attributes } ∧
      data.node.mutation.attributes.Perm attributes := by
  rw [Data.node]
  cases data.shape with
  | none => exact ⟨[], rfl, .nil⟩
  | some m => exact mutationOf_json m

theorem next_json {next : Option (Plug Tree)}
    (following : ∀ plug ∈ next, Loads declared s plug.child) {b : Block} (bare : b.next = none) :
    ∃ next', (match (jsonNext s next).bind fun v => (view declared v).connected with
      | none => pure b
      | some step => return { b with next := some (← step) }) =
        (pure { b with next := next' } : Loading Block) ∧
      Option.Rel Block.Agree (blockNext next) next' := by
  cases next with
  | none => exact ⟨none, by cases b; cases bare; rfl, .none⟩
  | some plug =>
      obtain ⟨b', connected, agree⟩ := connected_jsonPlug (following plug rfl)
      refine ⟨some b', ?_, .some agree⟩
      rw [jsonNext, Option.bind_some, connected]
      exact pure_bind _ _

/-- A well-formed tree that is saved as JSON loads as a block that agrees with its own. -/
theorem view_json {t : Tree} (h : t.WellFormed declared) : Loads declared s t := by
  induction h with
  | @mk data inputs next well names sorts _ _ children following =>
      obtain ⟨loaded, related, connected⟩ := connected_jsonInputs children
      obtain ⟨attributes, taken, moved⟩ := mutation_json data
      have distinct : (keys loaded).Nodup := by
        rw [← keys_eq_of_forall₂ related, keys_entries, map_name_blockInputs]
        exact names
      have parts (statement : Bool) : Table.Rel Block.Agree (part statement (blockInputs inputs))
          (part statement ((sortByKey loaded).map (byKind data.kind))) := by
        rw [← map_byKind_entries sorts, part_byKind, part_byKind]
        exact Rel.filter ⟨related, (sortByKey_perm distinct).symm⟩
          fun name => data.kind.isStatementInput name == statement
      let node : Node := { data.node with
        fields := (sortByKey data.fields).map fun f => (f.1, f.2.written)
        mutation := { data.node.mutation with attributes } }
      let values := part false ((sortByKey loaded).map (byKind data.kind))
      let statements := part true ((sortByKey loaded).map (byKind data.kind))
      have plugged := foldlM_addInput_eq node rfl (nodup_keys_sortByKey distinct)
      obtain ⟨next', followed, agree⟩ :=
        next_json following (b := { node, values, statements }) rfl
      refine ⟨{ node, values, statements, next := next' }, ?_, ?_⟩
      · rw [Tree.json, block_json _ _ _ well, taken, pure_bind, connected,
          sortByKey_map (fun b => some (pure b)), plugged, pure_bind]
        exact followed
      · have fields := ((sortByKey_perm well.fields).map fun f => (f.1, f.2.written)).symm
        exact .intro ⟨fields, moved, rfl⟩ (parts false) (parts true) agree

end Tree

end Workspace.OfJson

end BlockScript
