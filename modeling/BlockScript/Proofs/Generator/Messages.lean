import BlockScript.Proofs.Template.ClosingBlocks

/-! # Messages

A message lists the entries that its fields leave, in their order. The name of a field goes between
double quotes as it is, and so it is the key exactly if a string can hold it as it is. If all names
are plain, the message can be read again, whatever the values are. -/

namespace BlockScript

open Ledger Template Json Text

namespace Block
variable {o : Options}

/-- Blocks are rendered as values, one after the other and without an error. -/
inductive RendersInTurn (o : Options) : List Block → Ledger → List Emitted → Ledger → Prop
  | nil (ledger : Ledger) : RendersInTurn o [] ledger [] ledger
  | cons {b : Block} {others : List Block} {ledger mid after : Ledger} {emitted : Emitted}
      {more : List Emitted} (first : b.render o .value true ledger = (.ok emitted, mid))
      (rest : RendersInTurn o others mid more after) :
      RendersInTurn o (b :: others) ledger (emitted :: more) after

/-! ### Fields -/

/-- The name of a field. -/
def entryName (b : Block) : String := b.node.fieldText "NAME"

/-- What a field with a name and a value leaves. -/
def entryOf (member : String × String) : Emitted := .value (entry member.1 member.2) .anything

section Field
variable {b : Block} (isOn : b.IsOn .field) {ledger mid : Ledger} {emitted : Emitted}
  (rendered : b.render o .value true ledger = (.ok emitted, mid))
include isOn rendered

/-- A field leaves its name, and the code in its input or a default. -/
theorem exists_answer_of_field : ∃ answer,
    (b.ownSurroundings o .field).valueIn "name" .atomic ledger = (.ok answer, mid) ∧
      emitted = entryOf (b.entryName, answer.getD "null") := by
  rw [render_of_isOn isOn] at rendered
  obtain ⟨own, inner, script, around⟩ := Pass.andThen_eq_ok.mp rendered
  obtain ⟨answer, last, answered, done⟩ := Pass.andThen_eq_ok.mp script
  obtain ⟨rfl, rfl⟩ := Pass.pure_eq_ok.mp done
  obtain ⟨rfl, rfl⟩ := Pass.pure_eq_ok.mp around
  refine ⟨answer, answered, ?_⟩
  rw [remarksAt, String.empty_append]
  rfl

/-- The value of a field is closed if all that is rendered with it is. -/
theorem exists_value_of_field : ∃ value, emitted = entryOf (b.entryName, value) ∧
    (IsIndentation o.indent.toList → (collecting o).Fits ledger → b.LeavesClosed →
      IsClosed value) := by
  obtain ⟨answer, answered, rfl⟩ := exists_answer_of_field isOn rendered
  refine ⟨_, rfl, fun blank fits closes => ?_⟩
  have inputs (input : String) (child : Block) (hi : (input, child) ∈ b.values) :
      child.LeavesClosed := fun part below => closes part (.value isOn.on hi below)
  have holds := building_holds (remarkLines .field b.node b.values) fun input child hi =>
    (inputs input child hi).render blank
  have fits : (building o).Fits ledger := ⟨fits.derived, fits.made⟩
  obtain ⟨-, -, outcome⟩ := holds.value "name" .atomic ledger fits fun _ _ => trivial
  rw [answered] at outcome
  cases answer with
  | none => exact .literal rfl fun _ => rfl
  | some text => exact outcome text rfl

end Field

/-! ### Messages -/

/-- The code of a message. -/
def messageCode (o : Options) (members : List (String × String)) : String :=
  "coap!( @json \x7b" ++ indentedEntries (entriesOf members) o.indent ++ "\x7d)"

variable {children : List Block} {ledger after : Ledger}

/-- Fields leave entries with their names, and the values are closed if all that is rendered with
the fields is. -/
theorem RendersInTurn.exists_members {emitted : List Emitted}
    (rendered : RendersInTurn o children ledger emitted after)
    (fields : ∀ field ∈ children, field.IsOn .field) :
    ∃ members : List (String × String), members.map Prod.fst = children.map entryName ∧
      emitted = members.map entryOf ∧
      (IsIndentation o.indent.toList → (collecting o).Fits ledger →
        (∀ field ∈ children, field.LeavesClosed) → ∀ member ∈ members, IsClosed member.2) := by
  induction rendered with
  | nil ledger => exact ⟨[], rfl, rfl, fun _ _ _ => nofun⟩
  | @cons field others ledger mid after emitted more first rest ih =>
      obtain ⟨isOn, later⟩ := List.forall_mem_cons.mp fields
      obtain ⟨value, rfl, closed⟩ := exists_value_of_field isOn first
      obtain ⟨members, names, rfl, others⟩ := ih later
      refine ⟨(field.entryName, value) :: members, by simp [names], rfl, ?_⟩
      intro blank fits closes
      have kept : (collecting o).Fits mid := by
        have run := field.addsConstructors .value true ledger fits fun _ _ => trivial
        rw [first] at run
        exact run.2.1
      obtain ⟨own, below⟩ := List.forall_mem_cons.mp closes
      exact List.forall_mem_cons.mpr ⟨closed blank fits own, others blank kept below⟩

/-- The entries in some inputs, one after the other. -/
theorem run_entries {b : Block} {remarks : String} {inputs : List Nat}
    {members : List (String × String)}
    (plugged : List.Forall₂ (fun i field => b.value? ("ADD" ++ toString i) = some field) inputs
      children)
    (rendered : RendersInTurn o children ledger (members.map entryOf) after) :
    (inputs.mapM fun i => Script.valueOr ("ADD" ++ toString i) .anything "''").run o
      (b.surroundings o remarks) ledger = (.ok (entriesOf members), after) := by
  induction plugged generalizing ledger members with
  | nil =>
      cases members with
      | nil =>
          cases rendered
          rfl
      | cons => cases rendered
  | @cons i field inputs children head _ ih =>
      cases members with
      | nil => cases rendered
      | cons member members =>
          cases rendered with
          | @cons _ _ _ mid _ _ _ first rest =>
              have answer : (Script.valueOr ("ADD" ++ toString i) .anything "''").run o
                  (b.surroundings o remarks) ledger = (.ok (entry member.1 member.2), mid) := by
                have filled : entry member.1 member.2 ≠ "" := by simp [entry]
                change ((b.surroundings o remarks).valueIn _ _).andThen _ ledger = _
                rw [valueIn_of_plugged head, Pass.andThen_assoc, Pass.andThen_of_ok first]
                simp only [entryOf, valueCode, if_neg filled, Precedence.wrap_anything]
                rfl
              rw [List.mapM_cons, Script.run_bind, Pass.andThen_of_ok answer, Script.run_bind,
                Pass.andThen_of_ok (ih rest)]
              rfl

/-- A message whose inputs hold fields that are rendered without an error is rendered without one,
and lists an entry for each field, in their order. What stands between the quotes of an entry, moved
with its lines, is the key that a string denotes exactly if the name of the field is plain. If all
that is rendered with the fields leaves closed code, which asks for plain names, the entries are
found again in the message, with the names for keys. -/
theorem render_lists {b : Block} (isOn : b.IsOn .coap) (place : Place) (alone : Bool)
    (items : b.node.mutation.items = children.length)
    (plugged : ∀ i (h : i < children.length), b.value? ("ADD" ++ toString i) = some children[i])
    (fields : ∀ field ∈ children, field.IsOn .field) {emitted : List Emitted}
    (rendered : RendersInTurn o children ledger emitted after) :
    ∃ members : List (String × String), members.map Prod.fst = children.map entryName ∧
      emitted = members.map entryOf ∧
      b.render o place alone ledger = (.ok (.value (remarksAt place
        (remarkLines .coap b.node b.values) ++ messageCode o members) .unaryPostfix), after) ∧
      (∀ member ∈ members, readKey (shift o.indent.toList (entry member.1 member.2).toList) =
        some (member.1, ':' :: ' ' :: shift o.indent.toList member.2.toList) ↔
          IsPlain member.1) ∧
      (IsIndentation o.indent.toList → (collecting o).Fits ledger →
        (∀ field ∈ children, field.LeavesClosed) →
          readEntries (indentedEntries (entriesOf members) o.indent) =
            some (members.map fun member => (member.1, movedValue o.indent member.2))) := by
  obtain ⟨members, names, rfl, closed⟩ := rendered.exists_members fields
  refine ⟨members, names, rfl, ?_, fun member _ => ?_, fun blank fits closes => ?_⟩
  · have inputs : List.Forall₂ (fun i field => b.value? ("ADD" ++ toString i) = some field)
        (List.range b.node.mutation.items) children := by
      rw [items, List.forall₂_iff_get]
      refine ⟨List.length_range, fun i _ h => ?_⟩
      simpa using plugged i h
    have script : b.own o .coap ledger =
        (.ok (.value (messageCode o members) .unaryPostfix), after) := by
      change (coap o b.node).run o _ ledger = _
      rw [coap_eq, Script.run_bind]
      exact Pass.andThen_of_ok (run_entries inputs rendered)
    rw [render_of_isOn isOn, Pass.andThen_of_ok script]
    rfl
  · have moved : shift o.indent.toList (entry member.1 member.2).toList =
        '"' :: (shift o.indent.toList member.1.toList ++
          '"' :: ':' :: ' ' :: shift o.indent.toList member.2.toList) := by
      simp [toList_entry]
    rw [moved, readKey_iff]
  · refine readEntries_indentedEntries blank (fun member hm => ?_) (closed blank fits closes)
    have name : member.1 ∈ children.map entryName := names ▸ List.mem_map_of_mem hm
    obtain ⟨field, hf, spelled⟩ := List.mem_map.mp name
    have isOn := fields field hf
    exact spelled ▸ (closes field hf field (.self isOn.on) .field isOn.known).plain rfl

/-- A field with a name and perhaps a value. -/
def fieldOf (name : String) (values : List (String × Block)) : Block where
  node := { id := "f", kindName := "field", fields := [("NAME", name)] }
  values := values

/-- A message with some fields. -/
def messageOf (items : String) (values : List (String × Block)) : Block where
  node := { id := "m", kindName := "coap", mutation := { attributes := [("items", items)] } }
  values := values

/-- A message in a message. -/
theorem render_lists_nested :
    let inner := messageOf "1" [("ADD0", fieldOf "x, y" [])]
    let first := fieldOf "t" []
    let second := fieldOf "pos" [("name", inner)]
    let b := messageOf "2" [("ADD0", first), ("ADD1", second)]
    let emitted := [entryOf ("t", "null"),
      entryOf ("pos", "(" ++ messageCode {} [("x, y", "null")] ++ ")")]
    b.IsOn .coap ∧ b.node.mutation.items = [first, second].length ∧
      (∀ i (h : i < [first, second].length),
        b.value? ("ADD" ++ toString i) = some [first, second][i]) ∧
      (∀ field ∈ [first, second], field.IsOn .field) ∧
      RendersInTurn {} [first, second] {} emitted {} ∧
      ∃ members : List (String × String), members.map Prod.fst = ["t", "pos"] ∧
        emitted = members.map entryOf ∧
        b.render {} .value true {} = (.ok (.value (messageCode {} members) .unaryPostfix), {}) ∧
        readEntries (indentedEntries (entriesOf members) "  ") =
          some (members.map fun member => (member.1, movedValue "  " member.2)) := by
  intro inner first second b emitted
  have isOn : b.IsOn .coap := ⟨rfl, by decide⟩
  have items : b.node.mutation.items = [first, second].length := by decide +kernel
  have plugged : ∀ i (h : i < [first, second].length),
      b.value? ("ADD" ++ toString i) = some [first, second][i] := by
    intro i h
    have cases : i = 0 ∨ i = 1 := by simp at h; omega
    rcases cases with rfl | rfl <;> rfl
  have fields : ∀ field ∈ [first, second], field.IsOn .field := by
    intro field hf
    simp only [List.mem_cons, List.not_mem_nil, or_false] at hf
    rcases hf with rfl | rfl <;> exact ⟨rfl, by decide⟩
  have alone : first.render {} .value true {} = (.ok (entryOf ("t", "null")), {}) := by
    decide +kernel
  have around : second.render {} .value true {} =
      (.ok (entryOf ("pos", "(" ++ messageCode {} [("x, y", "null")] ++ ")")), {}) := by
    decide +kernel
  have rendered : RendersInTurn {} [first, second] {} emitted {} :=
    .cons alone (.cons around (.nil {}))
  have closes : ∀ field ∈ [first, second], field.LeavesClosed := by
    intro field hf
    refine leavesClosed_of_walk ?_
    simp only [List.mem_cons, List.not_mem_nil, or_false] at hf
    rcases hf with rfl | rfl <;> decide +kernel
  have blank : IsIndentation ({} : Options).indent.toList := by decide +kernel
  have fits : (collecting {}).Fits {} := ⟨.empty, fun _ hc => absurd hc List.not_mem_nil⟩
  refine ⟨isOn, items, plugged, fields, rendered, ?_⟩
  obtain ⟨members, names, left, run, -, found⟩ :=
    render_lists isOn .value true items plugged fields rendered
  have bare : remarksAt .value (remarkLines .coap b.node b.values) ++ messageCode {} members =
      messageCode {} members := String.empty_append
  exact ⟨members, names, left, bare ▸ run, found blank fits closes⟩

/-- A quote in a name ends the key, so there is no entry with that name. -/
theorem render_lists_quote :
    let b := messageOf "1" [("ADD0", fieldOf "a\"b" [])]
    b.IsOn .coap ∧ b.node.mutation.items = 1 ∧
      b.value? "ADD0" = some (fieldOf "a\"b" []) ∧ (fieldOf "a\"b" []).IsOn .field ∧
      (fieldOf "a\"b" []).render {} .value true {} = (.ok (entryOf ("a\"b", "null")), {}) ∧
      b.render {} .value true {} =
        (.ok (.value (messageCode {} [("a\"b", "null")]) .unaryPostfix), {}) ∧
      readKey (entry "a\"b" "null").toList = some ("a", "b\": null".toList) ∧
      readEntries (indentedEntries (entriesOf [("a\"b", "null")]) "  ") = none := by
  intro b
  refine ⟨⟨rfl, by decide⟩, by decide +kernel, rfl, ⟨rfl, by decide⟩, ?_, ?_, ?_, ?_⟩
  all_goals decide +kernel

end Block

end BlockScript
