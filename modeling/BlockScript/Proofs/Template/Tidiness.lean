import BlockScript.Proofs.Expression.Numeral
import BlockScript.Proofs.Rendering.Contract
import BlockScript.Proofs.Text.Rewording

/-! # Tidy code

What every block owes the program that it becomes a part of: code that mentions only imported
modules, helpers whose modules are imported, and definitions under the key of a procedure or a
handler. What it relies on is the same of the code of other blocks. -/

namespace BlockScript

open Template

/-- What code may mention, and how it is looked at. -/
structure Surface where
  /-- The modules that are imported. -/
  modules : Module → Prop
  /-- The modules that texts of the user may mention. -/
  texts : Module → Prop
  allowed : ∀ m, texts m → modules m
  /-- What will be seen of an expression: quotes may be dropped later. -/
  view : View

/-- What the blocks of a pass may draw on. -/
structure Scope extends Surface where
  /-- The names of procedures. -/
  procedures : String → Prop
  /-- May routines be defined? -/
  defines : Prop
  /-- The inputs that a script drops the quotes of. -/
  strict : String → Prop

/-- The modules that the code of a helper mentions. -/
def Helper.modules : Helper → List Module
  | .sum | .mean | .median | .letterFromEnd | .substring | .titleCase | .countMatches
  | .sublist | .sortList => []
  | _ => [.math]

theorem Helper.isPlain_of_mem_template (h : Helper) :
    ∀ line ∈ h.template, isPlain h.modules line = true := by
  cases h <;>
    simp only [template, modules, List.forall_mem_cons, List.not_mem_nil, false_implies,
      implies_true, and_true]
  all_goals repeat' apply And.intro
  all_goals exact joins_of_chars rfl (by decide)

namespace Surface
variable (s : Surface)

/-- Code of an expression. There is some, and what is seen of it mentions imports only. -/
structure IsExpression (code : String) : Prop where
  nonempty : code ≠ ""
  seen : MentionsOnly s.modules s.view code

/-- Code of statements. What it mentions is imported, and code may follow. -/
structure IsStatements (code : String) : Prop where
  whole : MentionsOnly s.modules .whole code
  closed : (∀ m, s.modules m) ∨ endsApart code.toList = true

/-- Code that is left at the place of a block. -/
def IsCode : Emitted → Prop
  | .value code _ => s.IsExpression code
  | .statement code => s.IsStatements code
  | .nothing => False

end Surface

namespace Scope
variable (s : Scope)

/-- The key of a procedure or of a handler. -/
def IsRoutineKey (key : String) : Prop :=
  ∃ name, key = definitionKey name ∧
    (s.procedures name ∨ ∃ widget event, s.procedures widget ∧ name = handlerName widget event)

/-- The contract of tidy code. -/
def tidy : Contract where
  value input code :=
    s.IsExpression code ∧ (s.strict input → MentionsOnly s.modules .unquoted code)
  body := MentionsOnly s.modules .whole
  remarks := s.IsStatements
  relies
    | .require m => s.modules m
    | .name .procedureName _ given => s.procedures given
    | _ => True
  owes
    | .helper h _ => ∀ line ∈ h.template, MentionsOnly s.modules .whole line
    | .declare _ _ => False
    | .define key code => s.defines ∧ s.IsRoutineKey key ∧ MentionsOnly s.modules .whole code
    | .addWidget _ code => MentionsOnly s.modules .unquoted code
    | _ => True
  error error := MentionsOnly s.texts .whole error.message

/-- Imports and the names of procedures are all that is relied on. -/
theorem tidy_relies {s : Scope} {e : Event} (modules : ∀ m, e = .require m → s.modules m)
    (procedures : ∀ raw given, e = .name .procedureName raw given → s.procedures given) :
    s.tidy.relies e := by
  cases e with
  | require m => exact modules m rfl
  | name category raw given =>
      cases category with
      | procedureName => exact procedures raw given rfl
      | variableName => trivial
  | _ => trivial

end Scope

/-- The texts of a block mention some modules only, if double quotes are dropped. -/
structure Node.Plain (F : Module → Prop) (n : Node) : Prop where
  id : MentionsOnly F .whole n.id
  kindName : MentionsOnly F .whole n.kindName
  fields : ∀ {name value}, n.field name = some value → MentionsOnly F .undoubled value
  arguments : ∀ a ∈ n.mutation.args, MentionsOnly F .whole a
  remark : ∀ text ∈ n.remark, MentionsOnly F .whole text

/-- The name of an entry goes into code as it is, and is looked at as the code is. -/
def Node.PlainEntry (F : Module → Prop) (v : View) (n : Node) : Prop :=
  Kind.ofTypeName? n.kindName = some .field → MentionsOnly F v (n.fieldText "NAME")

/-- Nothing is put around statements, and lines are indented by something without letters, unless
every module may be mentioned. -/
def Options.Quiet (F : Module → Prop) (o : Options) : Prop :=
  (∀ m, F m) ∨
    (o.statementPrefix = none ∧ o.statementSuffix = none ∧ o.loopTrap = none ∧
      IsInert o.indent.toList)

namespace Options.Quiet
variable {F : Module → Prop} {o : Options} (quiet : o.Quiet F)
include quiet

theorem margin : IsMargin F o.indent := quiet.imp_right fun h => h.2.2.2

theorem templates :
    (∀ m, F m) ∨ ∀ id, o.prefixFor id = none ∧ o.suffixFor id = none ∧ o.trapFor id = none := by
  refine quiet.imp_right fun ⟨noPrefix, noSuffix, noTrap, _⟩ id => ⟨?_, ?_, ?_⟩
  · simp [prefixFor, instantiate, noPrefix]
  · simp [suffixFor, instantiate, noSuffix]
  · simp [trapFor, instantiate, noTrap]

end Options.Quiet

namespace MentionsOnly
variable {F : Module → Prop} {v : View} {a b c : String}

/-! The rules for literals that mention no module, for the simplifier. -/

@[simp] theorem literal (h : isPlain [] a = true) : MentionsOnly F v a :=
  of_isPlain (by simp) h

@[simp] theorem append_literal (h : isEnding [] b = true) :
    MentionsOnly F v (a ++ b) ↔ MentionsOnly F v a :=
  append_ending (by simp) h

@[simp] theorem literal_append (h : isOpening [] a = true) :
    MentionsOnly F v (a ++ b) ↔ MentionsOnly F v b :=
  opening_append (by simp) h

@[simp] theorem append_literal_append (h : isSpacer [] b = true) :
    MentionsOnly F v (a ++ b ++ c) ↔ MentionsOnly F v a ∧ MentionsOnly F v c :=
  append_spacer_append (by simp) h

@[simp] theorem intercalate_literal {texts : List String} (h : isSpacer [] b = true) :
    MentionsOnly F v (b.intercalate texts) ↔ ∀ t ∈ texts, MentionsOnly F v t :=
  intercalate_iff (by simp) h texts

end MentionsOnly

/-- Are characters those of a text that mentions no module? -/
def isHarmless (cs : List Char) : Bool :=
  !cs.isEmpty && joins false false [] (cs.filter View.unquoted.shows)

theorem isPlain_of_isHarmless {text : String} {cs : List Char} (literal : text = String.ofList cs)
    (h : isHarmless cs = true) : isPlain [] text = true := by
  simp only [isHarmless, Bool.and_eq_true] at h
  exact joins_of_chars literal h.2

namespace Surface
variable {s : Surface} {code a b : String}

theorem IsExpression.whole (h : s.IsExpression code) : MentionsOnly s.modules .whole code :=
  h.seen.to_whole

/-- What an expression mentions, as it is and as it will be seen. -/
theorem IsExpression.mentions (h : s.IsExpression code) :
    MentionsOnly s.modules s.view code ∧ MentionsOnly s.modules .whole code :=
  ⟨h.seen, h.whole⟩

theorem IsExpression.literal {cs : List Char} (literal : code = String.ofList cs)
    (h : isHarmless cs = true) : s.IsExpression code := by
  refine ⟨?_, .literal (isPlain_of_isHarmless literal h)⟩
  rintro rfl
  have hnil : cs = [] := by
    rw [← String.toList_ofList (l := cs), ← literal]
    rfl
  rw [hnil] at h
  exact Bool.noConfusion h

theorem IsExpression.of_inert (hne : code ≠ "") (inert : IsInert code.toList) :
    s.IsExpression code :=
  ⟨hne, .of_inert inert⟩

/-- Parentheses mention nothing. -/
theorem IsExpression.wrap (h : s.IsExpression code) (inner required : Precedence) :
    s.IsExpression (Precedence.wrap code inner required) := by
  unfold Precedence.wrap
  split
  · constructor
    · simp [Precedence.parenthesized]
    · unfold Precedence.parenthesized
      simp (disch := (apply joins_of_chars rfl; decide)) [h.mentions]
  · exact h

theorem IsStatements.empty : s.IsStatements "" :=
  ⟨.empty, .inr rfl⟩

theorem endsApart_append {xs ys : List Char} (hx : endsApart xs = true)
    (hy : endsApart ys = true) : endsApart (xs ++ ys) = true := by
  cases ys with
  | nil => rwa [List.append_nil]
  | cons c rest => rwa [endsApart, List.getLast?_append_of_ne_nil _ (List.cons_ne_nil _ _)]

theorem IsStatements.append_iff (ha : s.IsStatements a) :
    MentionsOnly s.modules .whole (a ++ b) ↔ MentionsOnly s.modules .whole b := by
  rcases ha.closed with all | closed
  · exact iff_of_true (.of_all all .whole _) (.of_all all .whole _)
  · rw [MentionsOnly.append_iff (.inl (by rwa [View.whole_of]))]
    exact and_iff_right ha.whole

theorem IsStatements.append (ha : s.IsStatements a) (hb : s.IsStatements b) :
    s.IsStatements (a ++ b) := by
  refine ⟨ha.append_iff.mpr hb.whole, ?_⟩
  rcases ha.closed with all | closed
  · exact .inl all
  · refine hb.closed.imp_right fun hb => ?_
    rw [String.toList_append]
    exact endsApart_append closed hb

/-- Statements one after another. -/
theorem IsStatements.join {codes : List String} (h : ∀ code ∈ codes, s.IsStatements code) :
    s.IsStatements ("".intercalate codes) := by
  induction codes with
  | nil => exact .empty
  | cons first rest ih =>
      have tail := ih fun code hc => h code (List.mem_cons_of_mem _ hc)
      cases rest with
      | nil => simpa using h first List.mem_cons_self
      | cons second more =>
          rw [String.intercalate_cons_cons, String.append_empty]
          exact (h first List.mem_cons_self).append tail

/-- Are characters those of a text that code may follow? -/
def closesCode (cs : List Char) : Bool := !cs.isEmpty && endsApart cs

/-- Statements that end with a literal. -/
theorem IsStatements.of_append {cs : List Char} (h : MentionsOnly s.modules .whole (a ++ b))
    (literal : b = String.ofList cs) (hb : closesCode cs = true) : s.IsStatements (a ++ b) := by
  simp only [closesCode, Bool.and_eq_true, Bool.not_eq_true', List.isEmpty_eq_false_iff] at hb
  refine ⟨h, .inr ?_⟩
  rw [String.toList_append, literal, String.toList_ofList, endsApart,
    List.getLast?_append_of_ne_nil _ hb.1]
  exact hb.2

end Surface

/-! What blocks show themselves. -/

/-- A field, or a default that mentions nothing. -/
theorem Node.Plain.fieldOr {F : Module → Prop} {n : Node} (plain : n.Plain F) (field default : String)
    (hd : isPlain [] default = true) :
    MentionsOnly F .undoubled ((n.field field).getD default) := by
  cases h : n.field field with
  | none => exact .literal hd
  | some text => exact plain.fields h

namespace Node.Plain
variable {s : Scope} {n : Node} (plain : n.Plain s.texts)
include plain

/-- What a field shows may go into code. -/
theorem fieldValue {name value : String} (h : n.field name = some value) :
    MentionsOnly s.modules .undoubled value :=
  (plain.fields h).mono s.allowed

theorem fieldText (name : String) : MentionsOnly s.modules .undoubled (n.fieldText name) := by
  unfold Node.fieldText
  cases h : n.field name with
  | none => exact .empty
  | some value => exact plain.fieldValue h

theorem unknownOption {field : String} {value : Option String} {cs : List Char}
    (literal : field = String.ofList cs) (h : isHarmless cs = true)
    (hv : ∀ text ∈ value, MentionsOnly s.texts .whole text) :
    s.tidy.error (n.unknownOption field value) := by
  have known : MentionsOnly s.texts .whole (value.getD "<missing>") := by
    cases value with
    | none => exact .literal (joins_of_chars rfl (by decide))
    | some text => exact hv text rfl
  have named : MentionsOnly s.texts .whole field :=
    .literal (isPlain_of_isHarmless literal h)
  change MentionsOnly _ _ (GenerateError.message (.unknownOption _ _ _ _))
  unfold GenerateError.message
  simp (disch := (apply joins_of_chars rfl; decide)) [known, named, plain.id, plain.kindName]

theorem unknownField {field value : String} {cs : List Char} (literal : field = String.ofList cs)
    (h : isHarmless cs = true) (hv : n.field field = some value) :
    s.tidy.error (n.unknownOption field (some value)) :=
  plain.unknownOption literal h fun _ ht =>
    Option.some.inj ht ▸ (plain.fields hv).to_whole

theorem missingField {field : String} {cs : List Char} (literal : field = String.ofList cs)
    (h : isHarmless cs = true) : s.tidy.error (n.unknownOption field none) :=
  plain.unknownOption literal h nofun

theorem invalidNumber {raw : String} (h : MentionsOnly s.texts .whole raw) :
    s.tidy.error (.invalidNumber n.id raw) := by
  change MentionsOnly _ _ (GenerateError.message (.invalidNumber _ _))
  unfold GenerateError.message
  simp (disch := (apply joins_of_chars rfl; decide)) [h, plain.id]

end Node.Plain

/-! Requests. -/

namespace Surface

/-- A name that was given out. -/
structure IsName (s : Surface) (given : String) : Prop extends s.IsExpression given where
  identifier : Names.isIdentifier given.toList = true

variable {s : Surface} {given raw : String}

theorem isName_of_isMadeOf (made : Names.IsMadeOf raw given)
    (h : MentionsOnly s.modules .whole raw) : s.IsName given := by
  have identifier := made.isIdentifier
  refine ⟨⟨?_, ?_⟩, identifier⟩
  · rintro rfl
    exact absurd identifier (by decide)
  · obtain ⟨i, rfl⟩ := made
    exact h.candidate i s.view

end Surface

namespace Script.Honours
variable {s : Scope} {raw : String}

theorem variableName (h : MentionsOnly s.modules .whole raw) :
    (variableName raw).Honours s.tidy s.IsName :=
  fun _ made => ⟨trivial, fun _ => Surface.isName_of_isMadeOf made h⟩

theorem procedureName (h : MentionsOnly s.modules .whole raw) :
    (procedureName raw).Honours s.tidy fun given => s.IsName given ∧ s.procedures given :=
  fun _ made => ⟨trivial, fun known => ⟨Surface.isName_of_isMadeOf made h, known⟩⟩

theorem temporaryName {cs : List Char} (literal : raw = String.ofList cs)
    (h : isHarmless cs = true) : (temporaryName raw).Honours s.tidy s.IsName :=
  fun _ made => ⟨trivial, fun _ =>
    Surface.isName_of_isMadeOf made (.literal (isPlain_of_isHarmless literal h))⟩

theorem helperName (h : Helper) (imported : ∀ m ∈ h.modules, s.modules m) :
    (helperName h).Honours s.tidy s.IsName := by
  have plain : isPlain [] h.key = true := by
    cases h <;> exact joins_of_chars rfl (by decide)
  refine fun _ made => ⟨fun line hl => ?_, fun _ => Surface.isName_of_isMadeOf made (.literal plain)⟩
  exact .of_isPlain imported (h.isPlain_of_mem_template line hl)

theorem requireModule (m : Module) :
    (requireModule m).Honours s.tidy fun _ => ∀ known ∈ [m], s.modules known :=
  ⟨trivial, fun imported _ hk => List.mem_singleton.mp hk ▸ imported⟩

theorem bodyOf (input : String) :
    (bodyOf input).Honours s.tidy (MentionsOnly s.modules .whole) :=
  fun _ h => h

theorem value? (input : String) (level : Precedence) :
    (value? input level).Honours s.tidy fun code => ∀ text ∈ code, s.IsExpression text :=
  fun _ h text ht => (h text ht).1

/-- The code in a value input, or a default that is an expression everywhere. -/
theorem valueOr_always {input : String} {level : Precedence} {default : String}
    (hd : ∀ surface : Surface, surface.IsExpression default) :
    (Script.valueOr input level default).Honours s.tidy s.IsExpression := by
  have bare := hd { s.toSurface with view := .unquoted }
  exact (valueOr (c := s.tidy) ⟨hd s.toSurface, fun _ => bare.seen⟩).mono fun _ h => h.1

/-- The code in a value input, or a default that mentions nothing. -/
theorem valueOr_literal {input : String} {level : Precedence} {default : String} {cs : List Char}
    (literal : default = String.ofList cs) (h : isHarmless cs = true) :
    (Script.valueOr input level default).Honours s.tidy s.IsExpression :=
  valueOr_always fun _ => .literal literal h

/-- The code in numbered inputs, where the default mentions nothing. -/
theorem numberedValues_literal {base : String} {level : Precedence} {default : String}
    {count : Nat} {cs : List Char} (literal : default = String.ofList cs)
    (h : isHarmless cs = true) :
    (Script.numberedValues base level default count).Honours s.tidy fun codes =>
      ∀ code ∈ codes, s.IsExpression code :=
  mapM_all fun _ _ => valueOr_literal literal h

end Script.Honours

end BlockScript
