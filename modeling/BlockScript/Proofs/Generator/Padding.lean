import BlockScript.Proofs.Expression.NumericLiteral
import BlockScript.Proofs.Generator.Widgets

/-! # The space around widgets

A label and a button show how much space they want as text in a field. What is no number is an error
of the block, and a finite number is written with one decimal. A field may name an infinity as well,
and that gets into the code as a word. -/

namespace BlockScript

open Text Number Template

/-- The spellings of the two infinities in a field. -/
def infinitySpellings : List (List Char) :=
  ["Infinity".toList, "+Infinity".toList, "-Infinity".toList]

/-- Does a field name an infinity, apart from blanks around it? -/
def NamesInfinity (raw : String) : Prop := trim raw.toList ∈ infinitySpellings

instance (raw : String) : Decidable (NamesInfinity raw) :=
  inferInstanceAs (Decidable (trim raw.toList ∈ infinitySpellings))

/-- A field holds an infinity exactly if it names one: decimals that are too large for the format are
no numbers. -/
theorem isFinite_readField_iff {raw : String} {x : Binary64} (h : readField raw = some x) :
    x.isFinite = true ↔ ¬ NamesInfinity raw := by
  simp only [NamesInfinity, infinitySpellings, List.mem_cons, List.not_mem_nil, or_false, not_or]
  unfold readField at h
  dsimp only at h
  split at h
  · next blank =>
      obtain rfl := Option.some.inj h
      rw [List.isEmpty_iff.mp blank]
      exact iff_of_true rfl (by decide)
  · split at h
    · next named =>
        obtain rfl := Option.some.inj h
        exact iff_of_false Bool.false_ne_true fun other => named.elim other.1 other.2.1
    · next unsigned =>
        split at h
        · next named =>
            obtain rfl := Option.some.inj h
            exact iff_of_false Bool.false_ne_true fun other => other.2.2 named
        · next other =>
            obtain ⟨-, finite⟩ := Option.filter_eq_some_iff.mp h
            obtain ⟨plain, plus⟩ := not_or.mp unsigned
            exact iff_of_true finite ⟨plain, plus, other⟩

/-- With one decimal, a number has the shape of one exactly if it is finite. -/
theorem isNumericLiteral_oneDecimal (x : Binary64) :
    isNumericLiteral x.oneDecimal = true ↔ x.isFinite = true := by
  cases x with
  | nan => decide +kernel
  | infinite negative => cases negative <;> decide +kernel
  | finite negative m e =>
      refine iff_of_true ?_ rfl
      let tenths := roundDiv .toEven (Binary64.scale (m * 10) e).1 (Binary64.scale (m * 10) e).2
      have text : (Binary64.finite negative m e).oneDecimal.toList = (signText negative).toList ++
          ((toString (tenths / 10)).toList ++ '.' :: (toString (tenths % 10)).toList) := by
        simp [Binary64.oneDecimal, tenths, String.toList_append]
      refine isNumericLiteral_of_isNumeral text ?_ (isNumeral_of_point ?_ ?_ ?_)
      · cases negative
        · exact .inl rfl
        · exact .inr rfl
      · exact toString_ne_nil _
      · exact toString_ne_nil _
      · intro c hc
        rcases List.mem_append.mp hc with hc | hc
        · exact Names.isAsciiDigit_of_mem_toString _ hc
        · exact Names.isAsciiDigit_of_mem_toString _ hc

/-! ### The code of a widget -/

/-- The code of a widget up to the call that puts space around it. -/
def beforeSpace (o : Options) : Kind → String
  | .label => joinLines
      ["//  Add the label widget to the column, centered with padding", "col.add_child(",
        nested o 1 "Align::centered(", nested o 2 ""]
  | _ => joinLines
      ["//  Add the button widget to the column, with padding", "col.add_child(", nested o 1 ""]

/-- The lines of the code behind the first argument of that call. -/
def afterSpace (o : Options) (widget : String) : Kind → String
  | .label => joinLines
      [nested o 3 widget, nested o 2 ")", nested o 1 "),", nested o 1 "1.0", ");"]
  | _ => joinLines [nested o 2 widget, nested o 1 "),", nested o 1 "1.0", ");"]

/-- The code that puts a widget of a kind into a column, with some space around it. -/
def placement (o : Options) (kind : Kind) (widget space : String) : String :=
  beforeSpace o kind ++ "Padding::new(" ++ space ++ ",\n" ++ afterSpace o widget kind

/-- What a widget shows of the space that it wants. -/
def shownSpace (n : Node) : String := (n.field "PADDING").getD "5"

/-- The space is what the field holds, with one decimal. -/
theorem padding_eq (n : Node) : padding n =
    match readField (shownSpace n) with
    | none => .fail (.invalidNumber n.id (shownSpace n))
    | some x => .done x.oneDecimal := by
  unfold padding shownSpace
  dsimp only
  split <;> simp_all

section Scripts
variable {kind : Kind} {o : Options} {n : Node} {x : Binary64}

theorem label_of_readField (h : readField (shownSpace n) = some x) : label o n =
    .addWidget (widgetName n) (labelConstructor o (widgetName n))
      (.done (.value (placement o .label (widgetName n) x.oneDecimal) .anything)) := by
  have code : placement o .label (widgetName n) x.oneDecimal = joinLines
      ["//  Add the label widget to the column, centered with padding", "col.add_child(",
        nested o 1 "Align::centered(", nested o 2 ("Padding::new(" ++ x.oneDecimal ++ ","),
        nested o 3 (widgetName n), nested o 2 ")", nested o 1 "),", nested o 1 "1.0", ");"] := by
    simp [placement, beforeSpace, afterSpace, joinLines, nested, String.append_assoc,
      String.intercalate_cons_cons]
  rw [label, padding_eq, h, code]
  rfl

theorem button_of_readField (h : readField (shownSpace n) = some x) : button o n =
    .addWidget (widgetName n) (buttonConstructor (widgetName n))
      (.done (.value (placement o .button (widgetName n) x.oneDecimal) .anything)) := by
  have code : placement o .button (widgetName n) x.oneDecimal = joinLines
      ["//  Add the button widget to the column, with padding", "col.add_child(",
        nested o 1 ("Padding::new(" ++ x.oneDecimal ++ ","), nested o 2 (widgetName n),
        nested o 1 "),", nested o 1 "1.0", ");"] := by
    simp [placement, beforeSpace, afterSpace, joinLines, nested, String.append_assoc,
      String.intercalate_cons_cons]
  rw [button, padding_eq, h, code]
  rfl

/-- A widget adds a constructor, and in its code stands the space that its field asks for. -/
theorem Kind.script_of_space (widget : kind = .label ∨ kind = .button)
    (h : readField (shownSpace n) = some x) : ∃ constructor, kind.script o n =
      .addWidget (widgetName n) constructor
        (.done (.value (placement o kind (widgetName n) x.oneDecimal) .anything)) := by
  rcases widget with rfl | rfl
  · exact ⟨_, label_of_readField h⟩
  · exact ⟨_, button_of_readField h⟩

/-- Without a number in its field, a widget fails before it does anything else. -/
theorem Kind.script_of_no_space (widget : kind = .label ∨ kind = .button)
    (h : readField (shownSpace n) = none) :
    kind.script o n = .fail (.invalidNumber n.id (shownSpace n)) := by
  rcases widget with rfl | rfl
  · simp only [script, Template.label, padding_eq, h, Script.fail_bind]
  · simp only [script, Template.button, padding_eq, h, Script.fail_bind]

end Scripts

namespace Block
variable {b : Block} {kind : Kind}

/-- A widget either fails, because its field holds no number, or leaves code in which the number is
the space around it. What stands there has the shape of a number exactly if the field names no
infinity. -/
theorem render_pads (widget : kind = .label ∨ kind = .button) (isOn : b.IsOn kind) (o : Options)
    (place : Place) (alone : Bool) (ledger : Ledger) :
    (readField (shownSpace b.node) = none ∧ b.render o place alone ledger =
      (.error (.invalidNumber b.node.id (shownSpace b.node)), ledger)) ∨
    ∃ x, readField (shownSpace b.node) = some x ∧
      (b.render o place alone ledger).1 = .ok (.value
        (remarksAt place (remarkLines kind b.node b.values) ++
          placement o kind (widgetName b.node) x.oneDecimal) .anything) ∧
      (isNumericLiteral x.oneDecimal = true ↔ ¬ NamesInfinity (shownSpace b.node)) := by
  rw [render_of_isOn isOn, own]
  cases field : readField (shownSpace b.node) with
  | none =>
      rw [Kind.script_of_no_space widget field]
      exact .inl ⟨rfl, rfl⟩
  | some x =>
      obtain ⟨constructor, script⟩ := Kind.script_of_space (o := o) widget field
      rw [script]
      refine .inr ⟨x, rfl, rfl, ?_⟩
      rw [isNumericLiteral_oneDecimal, isFinite_readField_iff field]

/-- A label that asks for some space. -/
def paddedLabel (space : String) : Block where
  node := { id := "l", kindName := "label", fields := [("NAME", "a"), ("PADDING", space)] }

theorem isOn_paddedLabel (space : String) : (paddedLabel space).IsOn .label := ⟨rfl, rfl⟩

/-- A number with blanks around it, and with an exponent. -/
theorem render_pads_exponent :
    let b := paddedLabel " 125e-2 "
    (Kind.label = .label ∨ Kind.label = .button) ∧ b.IsOn .label ∧
    ∃ x, readField (shownSpace b.node) = some x ∧ x.oneDecimal = "1.2" ∧
      (b.render {} .value true {}).1 = .ok (.value
        (remarksAt .value (remarkLines .label b.node b.values) ++
          placement {} .label (widgetName b.node) x.oneDecimal) .anything) ∧
      isNumericLiteral x.oneDecimal = true := by
  intro b
  have isOn : b.IsOn .label := isOn_paddedLabel _
  have shown : (readField (shownSpace b.node)).map Binary64.oneDecimal = some "1.2" := by
    decide +kernel
  have plain : ¬ NamesInfinity (shownSpace b.node) := by decide +kernel
  refine ⟨.inl rfl, isOn, ?_⟩
  rcases render_pads (.inl rfl) isOn {} .value true {} with ⟨field, -⟩ | ⟨x, field, run, numeric⟩
  · rw [field] at shown
    cases shown
  · rw [field] at shown
    exact ⟨x, field, Option.some.inj shown, run, numeric.mpr plain⟩

/-- An infinity gets into the code as a word. -/
theorem render_pads_infinity :
    let b := paddedLabel "Infinity"
    (b.render {} .value true {}).1 =
      .ok (.value (placement {} .label (widgetName b.node) "inf") .anything) ∧
    isNumericLiteral "inf" = false := by
  refine ⟨?_, by decide⟩
  decide +kernel

end Block

end BlockScript
