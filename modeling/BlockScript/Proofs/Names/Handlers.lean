import BlockScript.Proofs.Names.Provenance
import BlockScript.Proofs.Text.Replacement
import BlockScript.Template.Routine

/-! # Names of handlers

The name of a handler is put together from the name of its widget and its event, and then
qualified. An identifier holds no colon, so it can be told from its qualified form, and so can the
widget and the event as long as nothing was qualified. -/

namespace BlockScript.Template

open Names

/-! Qualified names. -/

/-- A colon gives way to an underscore. -/
def plainChar (c : Char) : Char := if c = ':' then '_' else c

theorem map_plainChar_replaceFrom {cs : List Char} (h : ':' ∉ cs) (skip : Nat) :
    (Text.replaceFrom ['_', '_'] [':', ':'] skip cs).map plainChar = cs.drop skip := by
  induction cs generalizing skip with
  | nil => simp
  | cons c rest ih =>
      obtain ⟨hc, hrest⟩ := not_or.mp (mt List.mem_cons.mpr h)
      cases skip with
      | succ n => exact ih hrest n
      | zero =>
          rw [Text.replaceFrom]
          split
          · next starts =>
              obtain ⟨tail, htail⟩ := List.isPrefixOf_iff_prefix.mp starts
              obtain ⟨rfl, rfl⟩ := List.cons.inj htail
              rw [List.map_append, ih hrest]
              rfl
          · rw [List.map_cons, ih hrest, List.drop_zero, List.drop_zero, plainChar,
              if_neg (Ne.symm hc)]

theorem colon_not_mem {text : String} (h : isIdentifier text.toList = true) :
    ':' ∉ text.toList :=
  not_mem_of_isIdentifier h (by decide)

theorem toList_qualified (text : String) :
    (qualified text).toList = Text.replaceFrom ['_', '_'] [':', ':'] 0 text.toList := by
  rw [qualified, Text.replaceAll, String.toList_ofList,
    show "__".toList = ['_', '_'] from String.toList_ofList,
    show "::".toList = [':', ':'] from String.toList_ofList]

/-- Identifiers with the same qualified form are the same. -/
theorem qualified_inj {a b : String} (ha : isIdentifier a.toList = true)
    (hb : isIdentifier b.toList = true) (h : qualified a = qualified b) : a = b := by
  have hl := congrArg (fun text : String => text.toList.map plainChar) h
  simp only [toList_qualified, map_plainChar_replaceFrom (colon_not_mem ha),
    map_plainChar_replaceFrom (colon_not_mem hb), List.drop_zero] at hl
  exact String.toList_inj.mp hl

/-- An identifier is not qualified. -/
theorem isQualified_of_isIdentifier {text : String} (h : isIdentifier text.toList = true) :
    isQualified text = false := by
  rw [isQualified, show "::".toList = [':', ':'] from String.toList_ofList, Bool.eq_false_iff]
  intro colons
  have hsub := ((Text.holdsText_iff _ _).mp colons).subset
  exact colon_not_mem h (hsub List.mem_cons_self)

theorem qualified_eq_self {text : String} (h : Text.holdsText ['_', '_'] text.toList = false) :
    qualified text = text := by
  rw [← String.toList_inj, toList_qualified, Text.replaceFrom_of_not_holds h]

/-- A name that is qualified holds two underscores in a row. -/
theorem isQualified_qualified {text : String} (h : isIdentifier text.toList = true) :
    isQualified (qualified text) = Text.holdsText ['_', '_'] text.toList := by
  cases held : Text.holdsText ['_', '_'] text.toList with
  | true =>
      rw [isQualified, toList_qualified, show "::".toList = [':', ':'] from String.toList_ofList]
      exact Text.holdsText_replaceFrom (by simp) held
  | false =>
      rw [qualified_eq_self held]
      exact isQualified_of_isIdentifier h

/-! Listeners. -/

/-- The name of the function that makes a listener, before it is qualified. -/
def listenerName : String := "sensor__new_sensor_listener"

/-- Only this name is qualified to that of the function. -/
theorem safeName_of_listener {raw given : String} (made : IsMadeOf raw given)
    (h : qualified given = "sensor::new_sensor_listener") : safeName raw = listenerName := by
  have identifier : isIdentifier listenerName.toList = true := by decide
  have own : given = listenerName :=
    qualified_inj made.isIdentifier identifier (h.trans (by decide))
  obtain ⟨i, rfl⟩ := made
  cases i with
  | zero => exact own
  | succ n =>
      -- A candidate with a number ends in a digit.
      have hlast := congrArg (fun text : String => text.toList.getLast?) own
      have hdigits : (toString (n + 2)).toList ≠ [] := by simp
      obtain ⟨c, hc⟩ : ∃ c, (toString (n + 2)).toList.getLast? = some c :=
        ⟨_, List.getLast?_eq_some_getLast hdigits⟩
      have digit := isAsciiDigit_of_mem_toString _ (List.mem_of_getLast? hc)
      simp only [candidate, String.toList_append, List.getLast?_append_of_ne_nil _ hdigits, hc]
        at hlast
      have hr : c = 'r' := Option.some.inj (hlast.trans (by decide))
      rw [hr] at digit
      exact absurd digit (by decide)

/-! Handlers. -/

/-- The name by which a widget calls its handler. -/
def callbackName (widget event : String) : String := "on_" ++ widget ++ "_" ++ event

theorem isIdentifier_callbackName {widget event : String}
    (hw : isIdentifier widget.toList = true) (he : event = "show" ∨ event = "press") :
    isIdentifier (callbackName widget event).toList = true := by
  have spelled : event.toList.all isNameChar = true := by
    rcases he with rfl | rfl <;> decide
  rw [isIdentifier_iff] at hw ⊢
  simp only [callbackName, String.toList_append, show "on_".toList = ['o', 'n', '_'] from String.toList_ofList,
    show "_".toList = ['_'] from String.toList_ofList]
  refine ⟨⟨'o', _, rfl, rfl⟩, fun c hc => ?_⟩
  simp only [List.append_assoc, List.mem_append, List.mem_cons, List.not_mem_nil, or_false] at hc
  rcases hc with (rfl | rfl | rfl) | hc | rfl | hc
  · rfl
  · rfl
  · rfl
  · exact hw.2 c hc
  · rfl
  · exact List.all_eq_true.mp spelled c hc

theorem callbackName_inj {widget other event : String}
    (h : callbackName widget event = callbackName other event) : widget = other := by
  have front := (String.append_left_inj _).mp ((String.append_left_inj _).mp h)
  exact (String.append_right_inj _).mp front

/-- Widgets whose handlers have the same name are the same. -/
theorem handlerName_inj {widget other event event' : String}
    (hw : isIdentifier widget.toList = true) (ho : isIdentifier other.toList = true)
    (he : event = "show" ∨ event = "press") (he' : event' = "show" ∨ event' = "press")
    (h : handlerName widget event = handlerName other event') : widget = other := by
  have plain := qualified_inj (isIdentifier_callbackName hw he) (isIdentifier_callbackName ho he') h
  -- The last letter tells the one event from the other.
  have same : event = event' := by
    have shown : "show".toList.getLast? = some 'w' := by decide
    have pressed : "press".toList.getLast? = some 's' := by decide
    have hlast := congrArg (fun text : String => text.toList.getLast?) plain
    simp only [callbackName, String.toList_append, List.getLast?_append] at hlast
    rcases he with rfl | rfl <;> rcases he' with rfl | rfl
    · rfl
    · rw [shown, pressed, Option.some_or, Option.some_or] at hlast
      exact absurd hlast (by decide)
    · rw [shown, pressed, Option.some_or, Option.some_or] at hlast
      exact absurd hlast (by decide)
    · rfl
  exact callbackName_inj (same ▸ plain)

/-- Two underscores in a row stand in one of two texts, or at the border. -/
theorem doubled_append {xs ys : List Char} :
    ['_', '_'] <:+: xs ++ ys ↔ ['_', '_'] <:+: xs ∨ ['_', '_'] <:+: ys ∨
      (xs.getLast? = some '_' ∧ ys.head? = some '_') := by
  rw [List.infix_append_iff]
  constructor
  · rintro (h | h | ⟨front, back, split, hfront, hback⟩)
    · exact .inl h
    · exact .inr (.inl h)
    · -- The border is in front of the two, between them or behind them.
      rcases front with _ | ⟨a, _ | ⟨b, more⟩⟩
      · obtain rfl : ['_', '_'] = back := split
        exact .inr (.inl hback.isInfix)
      · obtain ⟨rfl, rfl⟩ := List.cons.inj split
        obtain ⟨before, rfl⟩ := hfront
        obtain ⟨after, rfl⟩ := hback
        exact .inr (.inr ⟨by simp, rfl⟩)
      · obtain ⟨rfl, tail⟩ := List.cons.inj split
        obtain ⟨rfl, none⟩ := List.cons.inj tail
        obtain ⟨rfl, -⟩ := List.nil_eq_append_iff.mp none
        exact .inl hfront.isInfix
  · rintro (h | h | ⟨hlast, hfirst⟩)
    · exact .inl h
    · exact .inr (.inl h)
    · obtain ⟨before, rfl⟩ := List.getLast?_eq_some_iff.mp hlast
      obtain ⟨after, rfl⟩ := List.head?_eq_some_iff.mp hfirst
      exact .inr (.inr ⟨['_'], ['_'], rfl, ⟨before, rfl⟩, ⟨after, rfl⟩⟩)

/-- When the name of a handler is qualified: two underscores come from its widget, or from the
border of that. -/
theorem doubled_callbackName {widget event : String} (hne : widget.toList ≠ [])
    (he : event = "show" ∨ event = "press") :
    Text.holdsText ['_', '_'] (callbackName widget event).toList = true ↔
      Text.holdsText ['_', '_'] widget.toList = true ∨ widget.toList.head? = some '_' ∨
        widget.toList.getLast? = some '_' := by
  have opening : "on_".toList = ['o', 'n', '_'] := String.toList_ofList
  have border : "_".toList = ['_'] := String.toList_ofList
  have ending : ¬ ['_', '_'] <:+: '_' :: event.toList := by
    rcases he with rfl | rfl <;> decide
  have start : ¬ ['_', '_'] <:+: ['o', 'n', '_'] := by decide
  have last : (['o', 'n', '_'] ++ widget.toList).getLast? = widget.toList.getLast? :=
    List.getLast?_append_of_ne_nil _ hne
  rw [Text.holdsText_iff, Text.holdsText_iff, callbackName, String.toList_append,
    String.toList_append, String.toList_append, opening, border, List.append_assoc _ ['_'],
    List.singleton_append, doubled_append, doubled_append, last]
  simp [start, ending, or_assoc]

/-- The handler of a widget is called by its own name exactly if the widget calls it by the name
that the handler was given, and there is no underscore at the border of that. -/
theorem handlerName_eq_callbackName_iff {given widget event : String}
    (hg : isIdentifier given.toList = true) (hw : isIdentifier widget.toList = true)
    (he : event = "show" ∨ event = "press")
    (plain : Text.holdsText ['_', '_'] widget.toList = false) :
    handlerName given event = callbackName widget event ↔
      given = widget ∧ widget.toList.head? ≠ some '_' ∧ widget.toList.getLast? ≠ some '_' := by
  have hne : widget.toList ≠ [] := by
    obtain ⟨⟨c, rest, hcs, -⟩, -⟩ := (isIdentifier_iff _).mp hw
    simp [hcs]
  have doubled := doubled_callbackName hne he
  rw [plain] at doubled
  constructor
  · intro same
    change qualified (callbackName given event) = _ at same
    have unqualified : isQualified (qualified (callbackName given event)) = false := by
      rw [same]
      exact isQualified_of_isIdentifier (isIdentifier_callbackName hw he)
    rw [isQualified_qualified (isIdentifier_callbackName hg he)] at unqualified
    rw [qualified_eq_self unqualified] at same
    obtain rfl := callbackName_inj same
    have border := mt doubled.mpr (Bool.not_eq_true _ ▸ unqualified)
    simpa using border
  · rintro ⟨rfl, hhead, hlast⟩
    refine qualified_eq_self (Bool.eq_false_iff.mpr fun held => ?_)
    rcases doubled.mp held with h | h | h
    · exact Bool.noConfusion h
    · exact hhead h
    · exact hlast h

theorem head?_handlerName (widget event : String) :
    (handlerName widget event).toList.head? = some 'o' := by
  have spelled : ("on_" ++ widget ++ "_" ++ event).toList =
      'o' :: 'n' :: '_' :: (widget ++ "_" ++ event).toList := by
    simp only [String.append_assoc, String.toList_append]
    rw [show "on_".toList = ['o', 'n', '_'] from String.toList_ofList]
    rfl
  rw [handlerName, toList_qualified, spelled]
  rfl

end BlockScript.Template
