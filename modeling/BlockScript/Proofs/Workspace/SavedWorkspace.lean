import BlockScript.Proofs.Workspace.SavedJson

/-! # Saved workspaces

A workspace of trees of blocks, in the two forms that it is saved in, and what loading makes of
either. -/

namespace BlockScript

open Saved
open Xml (Element)
open Json (Value)

namespace Saved

def xmlVariable (v : Variable) : Element :=
  { name := "variable", attributes := [("id", v.id)], text := v.name }

/-- A workspace as XML: a list of variables, and then the blocks. -/
def xmlWorkspace (s : Spelling) (declared : List Variable) (trees : List Tree) : Element where
  name := "xml"
  children := { name := "variables", children := declared.map xmlVariable } ::
    trees.map fun t => t.xml s "block"

def jsonVariable (v : Variable) : Value := .object [("name", .string v.name), ("id", .string v.id)]

/-- A workspace as JSON: the blocks in a section of their own, and a list of variables. -/
def jsonWorkspace (s : Spelling) (declared : List Variable) (trees : List Tree) : Value :=
  .object [("blocks", .object [("languageVersion", .integer 0),
      ("blocks", .array (trees.map fun t => t.json s))]),
    ("variables", .array (declared.map jsonVariable))]

end Saved

/-- Steps that do not fail and make no ids have their results together. -/
theorem Loading.result_mapM {α β : Type} {step : α → Loading β} {as : List α} {bs : List β}
    (h : List.Forall₂ (fun a b => step a = pure b) as bs) : result (as.mapM step) = .ok bs := by
  have whole : as.mapM step = pure bs := by
    induction h with
    | nil => rfl
    | cons first _ ih => rw [List.mapM_cons, first, ih]; rfl
  rw [whole]
  rfl

namespace Workspace

variable {declared : List Variable} {trees : List Tree}

theorem OfXml.variablesOf_xml (declared : List Variable) :
    variablesOf { name := "variables", children := declared.map xmlVariable } = declared := by
  simp [variablesOf, xmlVariable, List.filter_map, Function.comp_def, Element.attribute?,
    Table.get?]

/-- A workspace that is saved as XML loads as the blocks of its trees. -/
theorem OfXml.workspaceOf_xml (h : ∀ t ∈ trees, t.WellFormed declared) (s : Spelling) :
    workspaceOf (xmlWorkspace s declared trees) = .ok ⟨trees.map Tree.block, declared⟩ := by
  have tops : (viewAll (xmlWorkspace s declared trees).children).filter (fun v =>
      isBlockName v.element.name) = trees.map fun t => view (t.xml s "block") := by
    simp [xmlWorkspace, viewAll_eq_map, view_element, name_xml, List.filter_map, Function.comp_def,
      isBlockName]
  have loaded : Loading.result ((trees.map fun t => view (t.xml s "block")).mapM View.block) =
      .ok (trees.map Tree.block) := by
    refine Loading.result_mapM (List.forall₂_map_left_iff.mpr (List.forall₂_map_right_iff.mpr ?_))
    exact List.forall₂_same.mpr fun t ht => view_xml (h t ht) s "block"
  have lists : ((xmlWorkspace s declared trees).children.filter fun child =>
      child.name = "variables").flatMap variablesOf = declared := by
    simp [xmlWorkspace, name_xml, List.filter_map, Function.comp_def, variablesOf_xml]
  rw [workspaceOf, tops, loaded]
  exact congrArg (fun declared => Except.ok (Workspace.mk (trees.map Tree.block) declared)) lists

theorem OfJson.variableOf_json (declared : List Variable) :
    (declared.map jsonVariable).map variableOf = declared := by
  simp [jsonVariable, variableOf, Function.comp_def, Value.get?, Table.get?, Value.scalarText?]

/-- A workspace that is saved as JSON loads as blocks that agree with those of its trees. -/
theorem OfJson.workspaceOf_json (h : ∀ t ∈ trees, t.WellFormed declared) (s : Spelling) :
    ∃ w, workspaceOf (jsonWorkspace s declared trees) = .ok w ∧
      Workspace.Agree ⟨trees.map Tree.block, declared⟩ w := by
  obtain ⟨blocks, loaded, agree⟩ : ∃ blocks,
      List.Forall₂ (fun v b => (view declared v).block = pure b) (trees.map fun t => t.json s)
        blocks ∧
      List.Forall₂ Block.Agree (trees.map Tree.block) blocks := by
    induction trees with
    | nil => exact ⟨[], .nil, .nil⟩
    | cons t rest ih =>
        obtain ⟨first, others⟩ := List.forall_mem_cons.mp h
        obtain ⟨b, loaded, agree⟩ := view_json (s := s) first
        obtain ⟨blocks, ls, as⟩ := ih others
        exact ⟨b :: blocks, .cons loaded ls, .cons agree as⟩
  refine ⟨⟨blocks, declared⟩, ?_, agree, rfl⟩
  have read : workspaceOf (jsonWorkspace s declared trees) =
      Loading.result ((trees.map fun t => t.json s).mapM fun v =>
        (view ((declared.map jsonVariable).map variableOf) v).block) >>= fun blocks =>
          .ok { blocks, declared := (declared.map jsonVariable).map variableOf } := rfl
  rw [read, variableOf_json, Loading.result_mapM loaded]
  rfl

/-- Saved as XML and as JSON, a workspace of well-formed trees loads as the same blocks, up to the
order of the entries in their tables. -/
theorem load_forms (h : ∀ t ∈ trees, t.WellFormed declared) (sx sj : Spelling) :
    OfXml.workspaceOf (xmlWorkspace sx declared trees) = .ok ⟨trees.map Tree.block, declared⟩ ∧
      ∃ w, OfJson.workspaceOf (jsonWorkspace sj declared trees) = .ok w ∧
        Workspace.Agree ⟨trees.map Tree.block, declared⟩ w := by
  constructor
  · exact OfXml.workspaceOf_xml h sx
  · exact OfJson.workspaceOf_json h sj

end Workspace

namespace Saved

def counter : Variable := ⟨"v", "count"⟩

/-- A block that shows one field. -/
def fieldData (id : String) (kind : Kind) (name : String) (field : Field) : Data :=
  { id, kind, fields := [(name, field)] }

def numberTree (id : String) (n : Int) : Tree :=
  ⟨fieldData id .mathNumber "NUM" (.scalar (.whole n)), [], none⟩

/-- The variable is set to a number, which covers a shadow. -/
def assignmentTree : Tree :=
  ⟨fieldData "set" .variablesSet "VAR" (.reference counter),
    [⟨"VALUE", false, .block (numberTree "n" 5) (some (numberTree "hidden" 0))⟩], none⟩

/-- A disabled condition with a comment. It tests a shadow, and another condition comes next. -/
def conditionTree : Tree :=
  ⟨{ id := "if"
     kind := .controlsIf
     x := some (-20)
     y := some 40
     shape := some { given := fun
       | .elseIfs => some (.whole 1)
       | .otherwise => some (.text "1")
       | _ => none }
     comment := some "why"
     disabled := true },
    [⟨"DO0", true, .block assignmentTree none⟩,
      ⟨"IF0", false, .shadow
        ⟨fieldData "b" .logicBoolean "BOOL" (.scalar (.text "TRUE")), [], none⟩⟩],
    some (.block ⟨{ id := "after", kind := .controlsIf }, [], none⟩ none)⟩

theorem fieldData_wellFormed {declared : List Variable} {id : String} (h : id ≠ "") (kind : Kind)
    (name : String) {field : Field} (shown : field.IsDeclared declared) :
    (fieldData id kind name field).WellFormed declared :=
  ⟨h, nofun, nofun, List.nodup_singleton name, List.forall_mem_singleton.mpr shown⟩

theorem leaf_wellFormed {declared : List Variable} {data : Data} (h : data.WellFormed declared) :
    Tree.WellFormed declared ⟨data, [], none⟩ :=
  .mk h .nil nofun nofun nofun

theorem assignmentTree_wellFormed : assignmentTree.WellFormed [counter] := by
  have number : (numberTree "n" 5).WellFormed [counter] :=
    leaf_wellFormed (fieldData_wellFormed (by decide) _ _ trivial)
  exact .mk (fieldData_wellFormed (by decide) _ _ rfl) (List.nodup_singleton _)
    (by decide) (List.forall_mem_singleton.mpr number) nofun

theorem conditionTree_wellFormed : conditionTree.WellFormed [counter] := by
  have test : Tree.WellFormed [counter]
      ⟨fieldData "b" .logicBoolean "BOOL" (.scalar (.text "TRUE")), [], none⟩ :=
    leaf_wellFormed (fieldData_wellFormed (by decide) _ _ trivial)
  have after : Tree.WellFormed [counter] ⟨{ id := "after", kind := .controlsIf }, [], none⟩ :=
    leaf_wellFormed ⟨by decide, nofun, nofun, .nil, nofun⟩
  refine .mk ⟨by decide, by decide, by decide, .nil, nofun⟩ (by decide) (by decide) ?_ ?_
  · exact List.forall_mem_cons.mpr
      ⟨assignmentTree_wellFormed, List.forall_mem_singleton.mpr test⟩
  · rintro plug ⟨⟩
    exact after

end Saved

theorem Workspace.load_forms_condition :
    conditionTree.WellFormed [counter] ∧
      OfXml.workspaceOf (xmlWorkspace .disabled [counter] [conditionTree]) =
        .ok ⟨[conditionTree.block], [counter]⟩ ∧
      ∃ w, OfJson.workspaceOf (jsonWorkspace .notEnabled [counter] [conditionTree]) = .ok w ∧
        Workspace.Agree ⟨[conditionTree.block], [counter]⟩ w := by
  have h : ∀ t ∈ [conditionTree], t.WellFormed [counter] :=
    List.forall_mem_singleton.mpr conditionTree_wellFormed
  exact ⟨conditionTree_wellFormed, load_forms h .disabled .notEnabled⟩

end BlockScript
