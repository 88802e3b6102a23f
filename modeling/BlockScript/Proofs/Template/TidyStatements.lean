import BlockScript.Proofs.Names.Handlers
import BlockScript.Proofs.Template.TidySequences
import BlockScript.Template

/-! # Statements and definitions are tidy

The scripts of control, devices, routines and windows keep the contract of tidy code, and so every
script does. Only a definition leaves nothing at its place. -/

namespace BlockScript.Template

open Script Number

variable {s : Scope} {o : Options} {n : Node}

/-! Control. -/

theorem isStatements_braced {head content : String} (hh : MentionsOnly s.modules .whole head)
    (hc : MentionsOnly s.modules .whole content) : s.IsStatements (braced head content) := by
  refine Surface.IsStatements.of_append ?_ rfl (by decide)
  simp (disch := (apply joins_of_chars rfl; decide)) [hh, hc]

theorem tidy_conditional {lead : String} (hlead : (∀ m, s.modules m) ∨ lead = "") (i : Nat) :
    (conditional lead i).Honours s.tidy s.IsStatements := by
  refine .andThen (.valueOr_literal rfl (by decide)) fun condition hc => ?_
  refine .andThen (.bodyOf _) fun branch hb => ?_
  refine isStatements_braced ?_ ?_
  · split <;> simp (disch := (apply joins_of_chars rfl; decide)) [hc.mentions]
  · rcases hlead with all | rfl
    · exact .of_all all .whole _
    · rwa [String.empty_append]

theorem tidy_otherwise {lead : String} (hlead : (∀ m, s.modules m) ∨ lead = "") :
    (otherwise lead).Honours s.tidy s.IsStatements := by
  refine .andThen (.bodyOf _) fun branch hb => ?_
  refine isStatements_braced (.literal (joins_of_chars rfl (by decide))) ?_
  rcases hlead with all | rfl
  · exact .of_all all .whole _
  · rwa [String.empty_append]

theorem isStatements_newline : s.IsStatements "\n" :=
  ⟨.literal (joins_of_chars rfl (by decide)), .inr (by decide)⟩

theorem tidy_controlsIf (quiet : o.Quiet s.modules) (endsWithElse : Bool) :
    (controlsIf endsWithElse o n).Honours s.tidy s.IsCode := by
  have lead : (∀ m, s.modules m) ∨
      ((o.suffixFor n.id).map (Text.prefixLines · o.indent)).getD "" = "" :=
    quiet.templates.imp_right fun none => by simp [(none n.id).2.1]
  have announce : s.IsStatements ((o.prefixFor n.id).getD "") := by
    rcases quiet.templates with all | none
    · exact ⟨.of_all all .whole _, .inl all⟩
    · simpa [(none n.id).1] using Surface.IsStatements.empty
  unfold controlsIf
  refine .andThen (.mapM_all fun i _ => tidy_conditional lead i) fun branches hb => ?_
  have code := announce.append (.join hb)
  intro hasElse
  dsimp only [Script.bind]
  split
  · refine .andThen (tidy_otherwise lead) fun last hl => ?_
    exact (code.append hl).append isStatements_newline
  · exact code.append isStatements_newline

theorem tidy_forever (quiet : o.Quiet s.modules) : (forever o n).Honours s.tidy s.IsCode := by
  refine .andThen (.bodyOf _) fun body hb => ?_
  have loop : MentionsOnly s.modules .whole (loopBody o n body) := by
    rcases quiet.templates with all | none
    · exact .of_all all .whole _
    · simpa [loopBody, none n.id] using hb
  refine Surface.IsStatements.of_append ?_ rfl (by decide)
  simp (disch := (apply joins_of_chars rfl; decide)) [loop]

theorem tidy_onStart : onStart.Honours s.tidy s.IsCode := by
  refine .andThen (.bodyOf _) fun body hb => ?_
  refine Surface.IsStatements.of_append ?_ rfl (by decide)
  simp (disch := (apply joins_of_chars rfl; decide)) [hb]

theorem tidy_wait (plain : n.Plain s.texts) : (wait n).Honours s.tidy s.IsCode := by
  unfold wait
  dsimp only
  split
  · next millis _ =>
      have digits := isExpression_scriptText (s := s) millis
      refine Surface.IsStatements.of_append ?_ rfl (by decide)
      simp (disch := (apply joins_of_chars rfl; decide)) [digits.mentions]
  · have raw := plain.fieldOr "DURATION" "0" (joins_of_chars rfl (by decide))
    exact plain.invalidNumber raw.to_whole

/-! Devices. -/

theorem tidy_coap (quiet : o.Quiet s.modules) : (coap o n).Honours s.tidy s.IsCode := by
  refine .andThen (.numberedValues_literal rfl (by decide)) fun entries h => ?_
  have joined : MentionsOnly s.modules s.view (",\n".intercalate entries) :=
    (MentionsOnly.intercalate_literal (joins_of_chars rfl (by decide))).mpr
      fun entry he => (h entry he).seen
  constructor
  · simp [Text.joinLines, String.intercalate_cons_cons]
  · simp (disch := (apply joins_of_chars rfl; decide)) [Text.joinLines,
      joined.prefixLines quiet.margin]

theorem tidy_field (entry : MentionsOnly s.modules s.view (n.fieldText "NAME")) :
    (field n).Honours s.tidy s.IsCode := by
  refine .andThen (.valueOr_literal rfl (by decide)) fun value h => ?_
  constructor
  · simp
  · simp (disch := (apply joins_of_chars rfl; decide)) [entry, h.mentions]

theorem tidy_pinOf (plain : n.Plain s.texts) : (pinOf n).Honours s.tidy s.IsExpression := by
  unfold pinOf
  split
  · exact plain.missingField rfl (by decide)
  · next pin h =>
      split
      · next hdigits =>
          simp only [Bool.and_eq_true, Bool.not_eq_true'] at hdigits
          refine Surface.IsExpression.of_inert ?_
            (isInert_of_digits (List.all_eq_true.mp hdigits.2))
          rintro rfl
          exact absurd hdigits.1 (by decide)
      · exact plain.unknownField rfl (by decide) h

theorem tidy_digitalTogglePin (plain : n.Plain s.texts) :
    (digitalTogglePin n).Honours s.tidy s.IsCode := by
  refine .andThen (tidy_pinOf plain) fun pin h => ?_
  refine Surface.IsStatements.of_append ?_ rfl (by decide)
  simp (disch := (apply joins_of_chars rfl; decide)) [h.mentions]

theorem tidy_digitalReadPin (plain : n.Plain s.texts) :
    (digitalReadPin n).Honours s.tidy s.IsCode := by
  refine .andThen (tidy_pinOf plain) fun pin h => ?_
  constructor
  · simp
  · simp (disch := (apply joins_of_chars rfl; decide)) [h.mentions]

theorem tidy_pinLevel (plain : n.Plain s.texts) :
    (pinLevel n).Honours s.tidy s.IsExpression := by
  unfold pinLevel
  split
  · exact Surface.IsExpression.literal rfl (by decide)
  · exact Surface.IsExpression.literal rfl (by decide)
  · refine plain.unknownOption rfl (by decide) fun text ht => ?_
    exact (plain.fields ht).to_whole

theorem tidy_digitalWritePin (plain : n.Plain s.texts) :
    (digitalWritePin n).Honours s.tidy s.IsCode := by
  refine .andThen (tidy_pinOf plain) fun pin hp => ?_
  refine .andThen (tidy_pinLevel plain) fun level hl => ?_
  refine Surface.IsStatements.of_append ?_ rfl (by decide)
  simp (disch := (apply joins_of_chars rfl; decide)) [hp.mentions, hl.mentions]

/-! Variables and procedures. -/

theorem tidy_variablesGet (plain : n.Plain s.texts) :
    (variablesGet n).Honours s.tidy s.IsCode := by
  refine .andThen (.variableName (plain.fieldText "VAR").to_whole) fun target h => ?_
  exact h.toIsExpression

theorem tidy_variablesSet (plain : n.Plain s.texts) :
    (variablesSet n).Honours s.tidy s.IsCode := by
  refine .andThen (.valueOr_literal rfl (by decide)) fun value hv => ?_
  refine .andThen (.variableName (plain.fieldText "VAR").to_whole) fun target ht => ?_
  refine Surface.IsStatements.of_append ?_ rfl (by decide)
  simp (disch := (apply joins_of_chars rfl; decide)) [ht.mentions, hv.mentions]

theorem tidy_mathChange (plain : n.Plain s.texts) : (mathChange n).Honours s.tidy s.IsCode := by
  refine .andThen (.valueOr_literal rfl (by decide)) fun delta hd => ?_
  refine .andThen (.variableName (plain.fieldText "VAR").to_whole) fun target ht => ?_
  refine Surface.IsStatements.of_append ?_ rfl (by decide)
  simp (disch := (apply joins_of_chars rfl; decide)) [ht.mentions, hd.mentions]

theorem tidy_defineRoutine {name code : String} (defines : s.defines)
    (hname : s.IsRoutineKey (definitionKey name)) (hcode : MentionsOnly s.modules .whole code) :
    (defineRoutine name code).Honours s.tidy (· = .nothing) := by
  intro comments hcomments
  exact ⟨⟨defines, hname, hcomments.append_iff.mpr hcode⟩, fun _ => rfl⟩

/-- The names of the arguments of a routine. -/
theorem tidy_argumentNames (plain : n.Plain s.texts) :
    (n.mutation.args.mapM variableName).Honours s.tidy fun arguments =>
      ∀ a ∈ arguments, s.IsName a :=
  .mapM_all fun raw hraw => .variableName ((plain.arguments raw hraw).mono s.allowed)

theorem tidy_proceduresDefine (defines : s.defines) (quiet : o.Quiet s.modules)
    (plain : n.Plain s.texts) : (proceduresDefine o n).Honours s.tidy (· = .nothing) := by
  refine .andThen (.procedureName (plain.fieldText "NAME").to_whole) fun routine hr => ?_
  refine .andThen (.bodyOf _) fun body hb => ?_
  refine .andThen (.value? _ _) fun result hresult => ?_
  refine .andThen (tidy_argumentNames plain) fun arguments ha => ?_
  have key : s.IsRoutineKey (definitionKey routine) := ⟨routine, rfl, .inl hr.2⟩
  have names : MentionsOnly s.modules .whole (", ".intercalate arguments) :=
    (MentionsOnly.intercalate_literal (joins_of_chars rfl (by decide))).mpr
      fun a hm => (ha a hm).whole
  split
  · refine tidy_defineRoutine defines key ?_
    rcases quiet.templates with all | none
    · exact .of_all all .whole _
    · simp (disch := (apply joins_of_chars rfl; decide)) [none n.id, hr.1.mentions, names, hb,
        ← String.append_assoc]
  · next returned =>
      have returned := hresult returned rfl
      refine tidy_defineRoutine defines key ?_
      rcases quiet.templates with all | none
      · exact .of_all all .whole _
      · simp (disch := (apply joins_of_chars rfl; decide)) [none n.id, hr.1.mentions, names, hb,
          returned.mentions, quiet.margin.append_right_iff, ← String.append_assoc]

/-- The values of the arguments, each as the script may rely on it. -/
theorem tidy_argumentValues :
    (argumentValues n).Honours s.tidy
      (List.Forall₂ (fun i => s.tidy.value ("ARG" ++ toString i))
        (List.range n.mutation.args.length)) :=
  .numberedValues fun _ =>
    ⟨.literal rfl (by decide), fun _ => .literal (joins_of_chars rfl (by decide))⟩

/-- A call with any number of arguments. -/
theorem isExpression_callAll {function : String} {arguments : List String}
    (hf : MentionsOnly s.modules s.view function)
    (ha : ∀ a ∈ arguments, MentionsOnly s.modules s.view a) :
    s.IsExpression (function ++ "(" ++ ", ".intercalate arguments ++ ")") := by
  have joined : MentionsOnly s.modules s.view (", ".intercalate arguments) :=
    (MentionsOnly.intercalate_literal (joins_of_chars rfl (by decide))).mpr ha
  constructor
  · simp
  · simp (disch := (apply joins_of_chars rfl; decide)) [hf, joined]

theorem tidy_procedureCall (plain : n.Plain s.texts) :
    (procedureCall n).Honours s.tidy s.IsExpression := by
  refine .andThen (.procedureName (plain.fieldText "NAME").to_whole) fun routine hr => ?_
  refine .andThen tidy_argumentValues fun arguments ha => ?_
  exact isExpression_callAll hr.1.seen (forall_mem_of_forall₂ ha fun _ _ known => known.1.seen)

theorem tidy_proceduresCallReturn (plain : n.Plain s.texts) :
    (proceduresCallReturn n).Honours s.tidy s.IsCode :=
  .andThen (tidy_procedureCall plain) fun _ h => h

theorem tidy_proceduresCallNoReturn (plain : n.Plain s.texts) :
    (proceduresCallNoReturn n).Honours s.tidy s.IsCode := by
  refine .andThen (tidy_procedureCall plain) fun call h => ?_
  refine Surface.IsStatements.of_append ?_ rfl (by decide)
  simp (disch := (apply joins_of_chars rfl; decide)) [h.mentions]

theorem tidy_returnLine (quiet : o.Quiet s.modules) :
    (returnLine o n).Honours s.tidy (MentionsOnly s.modules .whole) := by
  unfold returnLine
  split
  · refine .andThen (.valueOr_literal rfl (by decide)) fun value h => ?_
    have line : MentionsOnly s.modules .whole (o.indent ++ "return " ++ value ++ ";\n") := by
      simp (disch := (apply joins_of_chars rfl; decide)) [h.mentions, quiet.margin.mentionsOnly]
    exact line
  · have line : MentionsOnly s.modules .whole (o.indent ++ "return;\n") := by
      simp (disch := (apply joins_of_chars rfl; decide)) [quiet.margin.mentionsOnly]
    exact line

theorem tidy_proceduresIfReturn (quiet : o.Quiet s.modules) :
    (proceduresIfReturn o n).Honours s.tidy s.IsCode := by
  refine .andThen (.valueOr_literal rfl (by decide)) fun condition hc => ?_
  refine .andThen (tidy_returnLine quiet) fun leave hl => ?_
  refine Surface.IsStatements.of_append ?_ rfl (by decide)
  rcases quiet.templates with all | none
  · exact .of_all all .whole _
  · simp (disch := (apply joins_of_chars rfl; decide)) [none n.id, hc.mentions, hl]

/-! Widgets. -/

theorem mentionsOnly_handlerName {widget : String} (hw : s.IsName widget) (event : String)
    (he : event = "show" ∨ event = "press") :
    MentionsOnly s.modules .whole (handlerName widget event) := by
  refine MentionsOnly.qualified ?_ (isIdentifier_callbackName hw.identifier he) .whole
  have plain : isPlain [] event = true := by
    rcases he with rfl | rfl <;> exact joins_of_chars rfl (by decide)
  unfold callbackName
  simp (disch := (apply joins_of_chars rfl; decide)) [hw.mentions, MentionsOnly.literal plain]

/-- What is said about a handler mentions no more than the name of its widget. -/
theorem tidy_handlerHead {widget : String} (hw : s.IsName widget) (result : Option String) :
    MentionsOnly s.modules .whole (handlerName widget (handlerHead widget result).1) ∧
      isPlain [] (handlerHead widget result).2.1 = true ∧
      MentionsOnly s.modules .whole (handlerHead widget result).2.2 := by
  cases result with
  | none =>
      refine ⟨?_, joins_of_chars rfl (by decide), ?_⟩
      · exact mentionsOnly_handlerName hw "press" (.inr rfl)
      · simp (disch := (apply joins_of_chars rfl; decide)) [handlerHead, hw.mentions]
  | some text =>
      refine ⟨?_, joins_of_chars rfl (by decide), ?_⟩
      · exact mentionsOnly_handlerName hw "show" (.inl rfl)
      · simp (disch := (apply joins_of_chars rfl; decide)) [handlerHead, hw.mentions]

theorem tidy_widgetsDefine (defines : s.defines) (quiet : o.Quiet s.modules)
    (plain : n.Plain s.texts) : (widgetsDefine o n).Honours s.tidy (· = .nothing) := by
  unfold widgetsDefine
  -- the question, of a name that is not known yet, would be unfolded over and over
  generalize isQualified = qualified
  refine .andThen (.procedureName (plain.fieldText "NAME").to_whole) fun widget hw => ?_
  refine .andThen (.bodyOf _) fun body hb => ?_
  refine .andThen (.value? _ _) fun result hresult => ?_
  have head := tidy_handlerHead hw.1 result
  rcases hhead : handlerHead widget result with ⟨event, resultType, description⟩
  rw [hhead] at head
  obtain ⟨hfunction, htype, hdescription⟩ := head
  have htype (v : View) := MentionsOnly.literal (F := s.modules) (v := v) htype
  have key : s.IsRoutineKey (definitionKey (handlerName widget event)) :=
    ⟨_, rfl, .inr ⟨widget, event, hw.2, rfl⟩⟩
  have returned : MentionsOnly s.modules .whole (result.getD "()") := by
    cases result with
    | none => exact .literal (joins_of_chars rfl (by decide))
    | some text => exact (hresult text rfl).whole
  dsimp only
  split
  · rfl
  · refine .andThen (tidy_argumentNames plain) fun arguments ha => ?_
    have names : MentionsOnly s.modules .whole
        (", ".intercalate (arguments.map (· ++ ": _"))) := by
      refine (MentionsOnly.intercalate_literal (joins_of_chars rfl (by decide))).mpr ?_
      intro text ht
      obtain ⟨a, hm, rfl⟩ := List.mem_map.mp ht
      simp (disch := (apply joins_of_chars rfl; decide)) [(ha a hm).mentions]
    refine tidy_defineRoutine defines key ?_
    rcases quiet.templates with all | none
    · exact .of_all all .whole _
    · simp (disch := (apply joins_of_chars rfl; decide)) [none n.id, hfunction, htype,
        hdescription, returned, names, hb, quiet.margin.append_right_iff, ← String.append_assoc]

/-- A handler that is passed by its name mentions what is seen of it without quotes. -/
theorem mentionsOnly_passHandlers {function : String} {arguments : List String}
    (h : ∀ a ∈ arguments, s.IsExpression a)
    (third : function = "sensor::new_sensor_listener" →
      ∀ a, arguments[2]? = some a → MentionsOnly s.modules .unquoted a) :
    ∀ a ∈ passHandlers function arguments, MentionsOnly s.modules s.view a := by
  intro a ha
  unfold passHandlers at ha
  split at ha
  · next listener =>
      obtain ⟨i, hi, rfl⟩ := List.mem_mapIdx.mp ha
      split
      · next two =>
          subst two
          intro m hm
          exact third listener _ (List.getElem?_eq_getElem hi) m
            ((View.of_unquoted s.view _).subst hm)
      · exact (h _ (List.getElem_mem hi)).seen
  · exact (h a ha).seen

theorem tidy_widgetCall (plain : n.Plain s.texts)
    (strict : Names.safeName (n.fieldText "NAME") = listenerName → s.strict "ARG2") :
    (widgetCall n).Honours s.tidy fun call => s.IsExpression call.2 := by
  have named : (procedureName (n.fieldText "NAME")).Honours s.tidy fun routine =>
      s.IsName routine ∧ Names.IsMadeOf (n.fieldText "NAME") routine := fun _ made =>
    ⟨trivial, fun _ => ⟨Surface.isName_of_isMadeOf made (plain.fieldText "NAME").to_whole, made⟩⟩
  refine .andThen named fun routine ⟨hr, made⟩ => ?_
  refine .andThen tidy_argumentValues fun arguments ha => ?_
  have function := hr.whole.qualified hr.identifier s.view
  have expressions := forall_mem_of_forall₂ ha fun _ _ value => value.1
  refine isExpression_callAll function (mentionsOnly_passHandlers expressions ?_)
  intro listener a third
  obtain ⟨hlt, rfl⟩ := List.getElem?_eq_some_iff.mp third
  have value := (List.forall₂_iff_get.mp ha).2 2 (by rw [ha.length_eq]; exact hlt) hlt
  simp only [List.get_eq_getElem, List.getElem_range] at value
  exact value.2 (strict (safeName_of_listener made listener))

theorem tidy_widgetsCallReturn (plain : n.Plain s.texts)
    (strict : Names.safeName (n.fieldText "NAME") = listenerName → s.strict "ARG2") :
    (widgetsCallReturn n).Honours s.tidy s.IsCode := by
  refine .andThen (tidy_widgetCall plain strict) fun call h => ?_
  dsimp only
  split
  · constructor
    · simp
    · simp (disch := (apply joins_of_chars rfl; decide)) [h.mentions]
  · constructor
    · simp
    · simp (disch := (apply joins_of_chars rfl; decide)) [h.mentions]

theorem tidy_widgetsCallNoReturn (plain : n.Plain s.texts)
    (strict : Names.safeName (n.fieldText "NAME") = listenerName → s.strict "ARG2") :
    (widgetsCallNoReturn n).Honours s.tidy s.IsCode := by
  refine .andThen (tidy_widgetCall plain strict) fun call h => ?_
  refine Surface.IsStatements.of_append ?_ rfl (by decide)
  simp (disch := (apply joins_of_chars rfl; decide)) [h.mentions]

theorem tidy_widgetsIfReturn (quiet : o.Quiet s.modules) :
    (widgetsIfReturn o n).Honours s.tidy s.IsCode := by
  refine .andThen (.valueOr_literal rfl (by decide)) fun condition hc => ?_
  refine .andThen (tidy_returnLine quiet) fun leave hl => ?_
  refine Surface.IsStatements.of_append ?_ rfl (by decide)
  simp (disch := (apply joins_of_chars rfl; decide)) [hc.mentions, hl]

/-! Windows. -/

theorem mentionsOnly_joinLines {ls : List String} {v : View}
    (h : ∀ line ∈ ls, MentionsOnly s.modules v line) :
    MentionsOnly s.modules v (Text.joinLines ls) :=
  (MentionsOnly.intercalate_literal (joins_of_chars rfl (by decide))).mpr h

theorem tidy_app (quiet : o.Quiet s.modules) : (app o n).Honours s.tidy s.IsCode := by
  refine .andThen (P := fun _ => True) ⟨trivial, fun _ => trivial⟩ fun _ _ => ?_
  refine .andThen (.numberedValues_literal rfl (by decide)) fun placed hp => ?_
  refine .andThen (P := fun made => ∀ code ∈ made, MentionsOnly s.modules .unquoted code)
    (fun made owed code hc => (owed code hc).choose_spec) fun made hm => ?_
  have placements : MentionsOnly s.modules s.view (Text.joinLines placed) :=
    mentionsOnly_joinLines fun code hc => (hp code hc).seen
  have constructors : MentionsOnly s.modules s.view (Text.joinLines made) :=
    mentionsOnly_joinLines fun code hc => (hm code hc).view s.view
  constructor
  · simp [Text.joinLines, String.intercalate_cons_cons]
  · refine mentionsOnly_joinLines fun line hl => ?_
    simp only [List.cons_append, List.nil_append, List.mem_cons, List.mem_append,
      List.not_mem_nil, or_false] at hl
    rcases hl with rfl | rfl | hl | rfl
    · exact .literal (joins_of_chars rfl (by decide))
    · exact .literal (joins_of_chars rfl (by decide))
    · refine MentionsOnly.of_mem_indented (mentionsOnly_joinLines ?_) quiet.margin hl
      simp (disch := (apply joins_of_chars rfl; decide)) [placements, constructors]
    · exact .literal (joins_of_chars rfl (by decide))

/-- The name of a widget, from its field or not. -/
theorem mentionsOnly_widgetName (plain : n.Plain s.texts) (v : View) :
    MentionsOnly s.modules v (widgetName n) := by
  have raw := plain.fieldOr "NAME" "name" (joins_of_chars rfl (by decide))
  exact (raw.mono s.allowed).to_whole.safeName v

theorem tidy_padding (plain : n.Plain s.texts) :
    (padding n).Honours s.tidy fun space => ∀ v, MentionsOnly s.modules v space := by
  unfold padding
  dsimp only
  split
  · exact mentionsOnly_oneDecimal _
  · have raw := plain.fieldOr "PADDING" "5" (joins_of_chars rfl (by decide))
    exact plain.invalidNumber raw.to_whole

theorem mentionsOnly_nested (quiet : o.Quiet s.modules) (depth : Nat) {line : String} {v : View} :
    MentionsOnly s.modules v (nested o depth line) ↔ MentionsOnly s.modules v line :=
  (quiet.margin.repeated depth).append_iff

theorem mentionsOnly_labelConstructor (quiet : o.Quiet s.modules) {widget : String}
    (h : ∀ v, MentionsOnly s.modules v widget) (v : View) :
    MentionsOnly s.modules v (labelConstructor o widget) := by
  refine mentionsOnly_joinLines ?_
  simp (disch := (apply joins_of_chars rfl; decide)) [h, mentionsOnly_nested quiet,
    ← String.append_assoc]

theorem tidy_label (quiet : o.Quiet s.modules) (plain : n.Plain s.texts) :
    (label o n).Honours s.tidy s.IsCode := by
  have widget := mentionsOnly_widgetName plain
  refine .andThen (tidy_padding plain) fun space hs => ?_
  refine ⟨mentionsOnly_labelConstructor quiet widget _, fun _ => ?_⟩
  constructor
  · simp [Text.joinLines, String.intercalate_cons_cons]
  · refine mentionsOnly_joinLines ?_
    simp (disch := (apply joins_of_chars rfl; decide)) [widget, hs, mentionsOnly_nested quiet]

theorem mentionsOnly_buttonConstructor {widget : String}
    (h : ∀ v, MentionsOnly s.modules v widget) (v : View) :
    MentionsOnly s.modules v (buttonConstructor widget) := by
  refine mentionsOnly_joinLines ?_
  simp (disch := (apply joins_of_chars rfl; decide)) [h, ← String.append_assoc]

theorem tidy_button (quiet : o.Quiet s.modules) (plain : n.Plain s.texts) :
    (button o n).Honours s.tidy s.IsCode := by
  have widget := mentionsOnly_widgetName plain
  refine .andThen (tidy_padding plain) fun space hs => ?_
  refine ⟨mentionsOnly_buttonConstructor widget _, fun _ => ?_⟩
  constructor
  · simp [Text.joinLines, String.intercalate_cons_cons]
  · refine mentionsOnly_joinLines ?_
    simp (disch := (apply joins_of_chars rfl; decide)) [widget, hs, mentionsOnly_nested quiet]

end BlockScript.Template

namespace BlockScript
open Template

variable {s : Scope} {o : Options} {n : Node}

/-- What a block of a kind leaves at its place. -/
def Surface.IsLeftBy (s : Surface) (kind : Kind) : Emitted → Prop
  | .nothing => kind.isProcedureDefinition = true
  | code => s.IsCode code

theorem Surface.IsCode.isLeftBy {code : Emitted} (h : s.IsCode code) (kind : Kind) :
    s.IsLeftBy kind code := by
  cases code with
  | value => exact h
  | statement => exact h
  | nothing => exact h.elim

/-- The script of a kind that defines nothing. -/
theorem Script.Honours.leaves {script : Script Emitted} (h : script.Honours s.tidy s.IsCode)
    (kind : Kind) : script.Honours s.tidy (s.IsLeftBy kind) :=
  h.mono fun _ code => Surface.IsCode.isLeftBy code kind

/-- The script of a definition. -/
theorem Script.Honours.defines {script : Script Emitted} {kind : Kind}
    (h : script.Honours s.tidy (· = .nothing)) (definition : kind.isProcedureDefinition = true) :
    script.Honours s.tidy (s.IsLeftBy kind) :=
  h.mono fun _ none => none ▸ definition

/-- Is a block of this kind a call of a widget's function? -/
def Kind.callsWidget : Kind → Bool
  | .widgetsCallReturn | .widgetsCallNoReturn => true
  | _ => false

/-- Every script is tidy. -/
theorem tidy_script (quiet : o.Quiet s.modules) (plain : n.Plain s.texts) (kind : Kind)
    (entry : kind = .field → MentionsOnly s.modules s.view (n.fieldText "NAME"))
    (strict : kind.callsWidget = true → Names.safeName (n.fieldText "NAME") = listenerName →
      s.strict "ARG2")
    (defines : kind.isProcedureDefinition = true → s.defines) :
    (kind.script o n).Honours s.tidy (s.IsLeftBy kind) := by
  cases kind with
  | controlsIf => exact (tidy_controlsIf quiet false).leaves _
  | controlsIfElse => exact (tidy_controlsIf quiet true).leaves _
  | logicCompare => exact (tidy_logicCompare plain).leaves _
  | logicOperation => exact (tidy_logicOperation plain).leaves _
  | logicNegate => exact tidy_logicNegate.leaves _
  | logicBoolean => exact (tidy_logicBoolean plain).leaves _
  | logicNull => exact tidy_logicNull.leaves _
  | logicTernary => exact tidy_logicTernary.leaves _
  | mathNumber => exact (tidy_mathNumber plain).leaves _
  | mathArithmetic => exact (tidy_mathArithmetic plain).leaves _
  | mathSingle | mathRound | mathTrig => exact (tidy_mathSingle plain).leaves _
  | mathConstant => exact (tidy_mathConstant plain).leaves _
  | mathNumberProperty => exact (tidy_mathNumberProperty plain).leaves _
  | mathChange => exact (tidy_mathChange plain).leaves _
  | mathOnList => exact (tidy_mathOnList plain).leaves _
  | mathModulo => exact tidy_mathModulo.leaves _
  | mathConstrain => exact tidy_mathConstrain.leaves _
  | mathRandomInt => exact tidy_mathRandomInt.leaves _
  | mathRandomFloat => exact tidy_mathRandomFloat.leaves _
  | mathAtan2 => exact tidy_mathAtan2.leaves _
  | text => exact (tidy_textLiteral plain).leaves _
  | textMultiline => exact (tidy_textMultiline plain).leaves _
  | textJoin => exact tidy_textJoin.leaves _
  | textAppend => exact (tidy_textAppend plain).leaves _
  | textLength => exact (tidy_sequenceLength .text).leaves _
  | textIsEmpty => exact (tidy_sequenceIsEmpty .text).leaves _
  | textIndexOf => exact (tidy_sequenceIndexOf plain .text).leaves _
  | textCharAt => exact (tidy_textCharAt plain).leaves _
  | textGetSubstring => exact (tidy_textGetSubstring plain).leaves _
  | textChangeCase => exact (tidy_textChangeCase plain).leaves _
  | textTrim => exact (tidy_textTrim plain).leaves _
  | textPrint => exact tidy_textPrint.leaves _
  | textPrompt | textPromptExt => exact (tidy_textPrompt plain).leaves _
  | textCount => exact tidy_textCount.leaves _
  | textReplace => exact tidy_textReplace.leaves _
  | textReverse => exact tidy_textReverse.leaves _
  | listsCreateEmpty => exact tidy_listsCreateEmpty.leaves _
  | listsCreateWith => exact tidy_listsCreateWith.leaves _
  | listsRepeat => exact tidy_listsRepeat.leaves _
  | listsLength => exact (tidy_sequenceLength .list).leaves _
  | listsIsEmpty => exact (tidy_sequenceIsEmpty .list).leaves _
  | listsIndexOf => exact (tidy_sequenceIndexOf plain .list).leaves _
  | listsGetIndex => exact (tidy_listsGetIndex plain).leaves _
  | listsSetIndex => exact (tidy_listsSetIndex plain).leaves _
  | listsGetSublist => exact (tidy_listsGetSublist plain).leaves _
  | listsSort => exact (tidy_listsSort plain).leaves _
  | listsSplit => exact (tidy_listsSplit plain).leaves _
  | listsReverse => exact tidy_listsReverse.leaves _
  | colourPicker => exact (tidy_colourPicker plain).leaves _
  | colourRandom => exact tidy_colourRandom.leaves _
  | colourRgb => exact tidy_colourRgb.leaves _
  | colourBlend => exact tidy_colourBlend.leaves _
  | variablesGet | variablesGetDynamic => exact (tidy_variablesGet plain).leaves _
  | variablesSet | variablesSetDynamic => exact (tidy_variablesSet plain).leaves _
  | proceduresDefReturn | proceduresDefNoReturn =>
      exact (tidy_proceduresDefine (defines rfl) quiet plain).defines rfl
  | proceduresCallReturn => exact (tidy_proceduresCallReturn plain).leaves _
  | proceduresCallNoReturn => exact (tidy_proceduresCallNoReturn plain).leaves _
  | proceduresIfReturn => exact (tidy_proceduresIfReturn quiet).leaves _
  | coap => exact (tidy_coap quiet).leaves _
  | field => exact (tidy_field (entry rfl)).leaves _
  | forever => exact (tidy_forever quiet).leaves _
  | wait => exact (tidy_wait plain).leaves _
  | digitalTogglePin => exact (tidy_digitalTogglePin plain).leaves _
  | digitalReadPin => exact (tidy_digitalReadPin plain).leaves _
  | digitalWritePin => exact (tidy_digitalWritePin plain).leaves _
  | onStart => exact tidy_onStart.leaves _
  | app => exact (tidy_app quiet).leaves _
  | label => exact (tidy_label quiet plain).leaves _
  | button => exact (tidy_button quiet plain).leaves _
  | widgetsDefReturn | widgetsDefNoReturn =>
      exact (tidy_widgetsDefine (defines rfl) quiet plain).defines rfl
  | widgetsCallReturn => exact (tidy_widgetsCallReturn plain (strict rfl)).leaves _
  | widgetsCallNoReturn => exact (tidy_widgetsCallNoReturn plain (strict rfl)).leaves _
  | widgetsIfReturn => exact (tidy_widgetsIfReturn quiet).leaves _

end BlockScript
