import BlockScript.Proofs.Rendering.Pieces

/-! # Statements end their lines

The code of a chain is empty or ends its last line, so that whatever follows it starts on a line of
its own, unless the last block of the chain leaves the line open: the code of an endless loop, and
of what runs at the start, ends with a parenthesis, and only a statement suffix ends the line
behind it. -/

namespace BlockScript

open Template Text

namespace Kind
variable {kind : Kind} {o : Options} {n : Node} {code : String}

/-- The statement of a block ends its line unless its kind leaves it open. -/
theorem Leaves.endsLine_iff (h : kind.Leaves o n (.statement code)) :
    code ≠ "" ∧ (EndsLine code ↔ kind.endsOpen = false) := by
  have closed (ends : EndsLine code) (other : kind.endsOpen = false) :
      code ≠ "" ∧ (EndsLine code ↔ kind.endsOpen = false) :=
    ⟨ends.ne_empty, iff_of_true ends other⟩
  cases kind with
  | forever | onStart =>
      obtain ⟨body, hcode⟩ := h
      obtain rfl := Emitted.statement.inj hcode
      have last : (body ++ ")").toList.getLast? = some ')' := by simp
      have opens : ¬ EndsLine (body ++ ")") := not_endsLine_of_getLast? last (by decide)
      refine ⟨fun hempty => ?_, iff_of_false opens (by decide)⟩
      simp [hempty] at last
  | controlsIf | controlsIfElse | proceduresIfReturn =>
      obtain ⟨condition, rfl, -, ends⟩ := h.exists_eq
      exact closed (ends.append _) rfl
  | _ => exact closed h rfl

theorem endsOpen_of_suppressesTemplates (h : kind.suppressesTemplates = true) :
    kind.endsOpen = false := by
  cases kind with
  | forever | onStart => exact nomatch h
  | _ => rfl

end Kind

/-- Does the line go on behind the code of a block? -/
def Block.LeavesLineOpen (o : Options) (b : Block) : Prop :=
  (Kind.ofTypeName? b.node.kindName).any Kind.endsOpen = true ∧ o.suffixFor b.node.id = none

instance (o : Options) (b : Block) : Decidable (b.LeavesLineOpen o) :=
  inferInstanceAs (Decidable (_ ∧ _))

/-- A text of a block is its own code and the suffix behind it. Either starts on a line of its own
unless the kind of the block leaves its line open. -/
def Block.Closes (o : Options) (b : Block) (piece : String) : Prop :=
  ∃ kind own, Kind.ofTypeName? b.node.kindName = some kind ∧
    piece = own ++ suffixBehind o kind b.node ∧ own ≠ "" ∧
    (EndsLine own ↔ kind.endsOpen = false) ∧ (EndsLine piece ↔ ¬ b.LeavesLineOpen o)

namespace Block
variable {o : Options} {b : Block} {place : Place} {alone : Bool} {ledger after : Ledger}
  {code piece : String} {blocks : List Block}

theorem Closes.ne_empty (h : b.Closes o piece) : piece ≠ "" := by
  obtain ⟨kind, own, -, rfl, nonempty, -⟩ := h
  exact fun hempty => nonempty (String.append_eq_empty_iff.mp hempty).1

section Suffix
variable (suffix : ∀ template ∈ o.statementSuffix, IsLineComplete template)
include suffix

theorem endsLine_suffixFor {id text : String} (h : o.suffixFor id = some text) : EndsLine text := by
  obtain ⟨template, filtered, rfl⟩ := Option.map_eq_some_iff.mp h
  obtain ⟨set, nonempty⟩ := Option.filter_eq_some_iff.mp filtered
  have ends := (isLineComplete_iff_of_ne_empty (by simpa using nonempty)).mp (suffix template set)
  exact ends.injectId id

/-- The line behind a block is open if its kind leaves it so and there is no suffix. -/
theorem endsLine_suffixBehind_iff {kind : Kind} {own : String}
    (known : Kind.ofTypeName? b.node.kindName = some kind)
    (ends : EndsLine own ↔ kind.endsOpen = false) :
    EndsLine (own ++ suffixBehind o kind b.node) ↔ ¬ b.LeavesLineOpen o := by
  have opens : b.LeavesLineOpen o ↔ kind.endsOpen = true ∧ o.suffixFor b.node.id = none := by
    rw [LeavesLineOpen, known, Option.any_some]
  rw [opens, suffixBehind]
  by_cases suppresses : kind.suppressesTemplates = true
  · have closed := Kind.endsOpen_of_suppressesTemplates suppresses
    simp [suppresses, ends, closed]
  · rw [if_neg suppresses]
    cases hsuffix : o.suffixFor b.node.id with
    | none => simp [ends]
    | some text => simp [(endsLine_suffixFor suffix hsuffix).append own]

theorem IsPiece.closes (h : b.IsPiece o place piece) : b.Closes o piece := by
  cases h with
  | @mk kind _ _ body known run =>
      obtain ⟨nonempty, ends⟩ := (own_leaves run).endsLine_iff
      let front := remarksAt place (remarkLines kind b.node b.values) ++ prefixBefore o kind b.node
      have ownEnds : EndsLine (front ++ body) ↔ kind.endsOpen = false :=
        (endsLine_append_iff nonempty).trans ends
      refine ⟨kind, front ++ body, known, ?_, ?_, ownEnds, ?_⟩
      · simp only [front, withTemplates_eq, String.append_assoc]
      · exact fun hempty => nonempty (String.append_eq_empty_iff.mp hempty).2
      · rw [withTemplates_eq, ← endsLine_suffixBehind_iff suffix known ownEnds]
        simp only [front, String.append_assoc]

end Suffix

theorem isLineComplete_iff_of_isJoined (h : IsJoined (Closes o) blocks code) :
    IsLineComplete code ↔ ∀ last ∈ blocks.getLast?, ¬ last.LeavesLineOpen o := by
  obtain ⟨pieces, rfl, hpieces⟩ := h
  induction hpieces with
  | nil => exact iff_of_true (.inl rfl) (by simp)
  | @cons b piece more pieces first rest ih =>
      rw [String.join_cons]
      cases rest with
      | nil =>
          obtain ⟨kind, own, -, -, -, -, ends⟩ := id first
          simp [isLineComplete_iff_of_ne_empty first.ne_empty, ends]
      | @cons second text others texts hsecond hothers =>
          have nonempty : String.join (text :: texts) ≠ "" := by
            rw [String.join_cons]
            exact fun hempty => hsecond.ne_empty (String.append_eq_empty_iff.mp hempty).1
          rw [isLineComplete_append_iff nonempty, ih, List.getLast?_cons_cons]

/-- The code of some blocks of a chain. The code of each, and the suffix behind it, starts on a line
of its own unless the code before it leaves its line open; so all of it is empty or ends its last
line, also behind indentation, exactly if the last block does not leave its line open. -/
structure EndsLines (o : Options) (blocks : List Block) (code : String) : Prop where
  pieces : IsJoined (Closes o) blocks code
  complete : IsLineComplete code ↔ ∀ last ∈ blocks.getLast?, ¬ last.LeavesLineOpen o
  indented : ∀ margin, IsLineComplete (prefixLines code margin) ↔ IsLineComplete code

theorem endsLines_of_isJoined (h : IsJoined (Closes o) blocks code) : EndsLines o blocks code where
  pieces := h
  complete := isLineComplete_iff_of_isJoined h
  indented := isLineComplete_prefixLines code

/-- If the suffix template is unset, empty or ends its last line, the code of a statement at any
place, and that of a chain, ends its lines except where a block leaves its line open. -/
theorem render_endsLines {o : Options}
    (suffix : ∀ template ∈ o.statementSuffix, IsLineComplete template) (b : Block)
    (ledger : Ledger) :
    (∀ place alone code after, b.render o place alone ledger = (.ok (.statement code), after) →
      EndsLines o (b.contributors alone) code) ∧
    (∀ code after, renderChain o b ledger = (.ok code, after) →
      EndsLines o (b.contributors false) code) := by
  constructor
  · intro place alone code after h
    refine endsLines_of_isJoined ((isJoined_render h).mono fun c piece hpiece => ?_)
    exact hpiece.elim (IsPiece.closes suffix) (IsPiece.closes suffix)
  · intro code after h
    exact endsLines_of_isJoined ((isJoined_renderChain h).mono fun c piece => IsPiece.closes suffix)

/-- An endless loop, and a block that prints after it. -/
def foreverThenPrint : Block :=
  { node := { id := "f", kindName := "forever" }
    next := some { node := { id := "p", kindName := "text_print" } } }

theorem render_endsLines_foreverThenPrint :
    (∀ template ∈ some "trace(%1);\n", IsLineComplete template) ∧
      EndsLines { statementSuffix := some "trace(%1);\n" } (foreverThenPrint.contributors false)
        "( loop  \n  trace('f');\n)trace('f');\nprint('');\ntrace('p');\n" := by
  have suffix : ∀ template ∈ some "trace(%1);\n", IsLineComplete template := by
    intro template set
    obtain rfl := Option.some.inj set
    exact .inr (by decide)
  refine ⟨suffix, (render_endsLines suffix foreverThenPrint {}).2 _ {} ?_⟩
  decide +kernel

/-- What follows an endless loop goes on in its last line. -/
theorem renderChain_leavesLineOpen :
    ∃ code after, foreverThenPrint.render {} .top true {} = (.ok (.statement code), after) ∧
      ¬ IsLineComplete code ∧
      (renderChain {} foreverThenPrint {}).1 = .ok (code ++ "print('');\n") := by
  refine ⟨"( loop  \n)", {}, ?_, ?_, ?_⟩
  · decide +kernel
  · rintro (h | h) <;> exact absurd h (by decide)
  · decide +kernel

end Block

end BlockScript
