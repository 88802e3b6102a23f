import BlockScript.Proofs.Expression.Arithmetic
import BlockScript.Proofs.Expression.Printed

/-! # Members and calls

Behind a postfix expression a point may follow, or the arguments of a call. Code with such an
expression in front is read for any expression there, so what a call does with its owner can be told
from the form of the code alone. -/

namespace BlockScript

open Text Names Number

universe u

/-- What follows an expression is the end of it, a member or a list of arguments. -/
def BeforePostfix (rest : List Char) : Prop :=
  ∀ c ∈ rest.head?, c ∈ [' ', ')', ',', '.', '(']

/-- Code is read as one expression, also if a member or arguments follow. -/
structure SpellsPostfix (code : String) (e : Expression) : Prop where
  reads : ∃ ts, Lexes BeforePostfix code ts ∧ Derives .unaryPostfix ts e
  start : ∃ c rest, code.toList = c :: rest ∧ c ≠ '='

/-- Arguments with commas between them. -/
def argumentText : List String → String
  | [] => ""
  | [code] => code
  | code :: rest => code ++ ", " ++ argumentText rest

theorem Boundary.beforePostfix {rest : List Char} (h : Boundary rest) : BeforePostfix rest := by
  intro c hc
  rcases h c hc with rfl | rfl | rfl <;> decide

theorem BeforePostfix.not_isNameChar {rest : List Char} (h : BeforePostfix rest) :
    ∀ c ∈ rest.head?, isNameChar c = false := by
  have all : [' ', ')', ',', '.', '('].all (fun c => !isNameChar c) = true := by decide
  intro c hc
  simpa using List.all_eq_true.mp all c (h c hc)

/-- Arguments are read one by one. -/
theorem exists_lexes_arguments {arguments : List (String × Expression)}
    (each : ∀ argument ∈ arguments, Spells argument.1 .anything argument.2) :
    ∃ read : List (List Token × Expression),
      Lexes Boundary (argumentText (arguments.map (·.1))) (commaSeparated (read.map (·.1))) ∧
        (∀ argument ∈ read, Derives .anything argument.1 argument.2) ∧
        read.map (·.2) = arguments.map (·.2) := by
  induction arguments with
  | nil => exact ⟨[], fun _ _ => rfl, nofun, rfl⟩
  | cons first rest ih =>
      obtain ⟨front, tail⟩ := List.forall_mem_cons.mp each
      obtain ⟨ts, lexes, derives⟩ := front.reads
      obtain ⟨read, lexes', derives', same⟩ := ih tail
      refine ⟨(ts, first.2) :: read, ?_, List.forall_mem_cons.mpr ⟨derives, derives'⟩,
        congrArg (_ :: ·) same⟩
      cases rest with
      | nil =>
          obtain rfl := List.map_eq_nil_iff.mp same
          exact lexes
      | cons second more =>
          obtain ⟨next, others, rfl⟩ := List.exists_cons_of_ne_nil
            (fun empty : read = [] => by simp [empty] at same)
          have behind := Lexes.commaBlank.append lexes' fun _ _ => True.intro
          have whole := lexes.append behind fun _ _ => by simp [Boundary]
          simpa only [List.map_cons, argumentText, commaSeparated, String.append_assoc,
            List.singleton_append] using whole

namespace SpellsPostfix
variable {code : String} {e f : Expression}

theorem spells (h : SpellsPostfix code e) : Spells code .unaryPostfix e := by
  obtain ⟨⟨ts, lexes, derives⟩, start⟩ := h
  exact ⟨⟨ts, lexes.mono fun _ boundary => boundary.beforePostfix, derives⟩, start⟩

theorem start_append (h : SpellsPostfix code e) (more : String) :
    ∃ c rest, (code ++ more).toList = c :: rest ∧ c ≠ '=' :=
  h.spells.start_append more

theorem word {text : String} (h : isIdentifier text.toList = true) :
    SpellsPostfix text (.ofWord text) where
  reads := ⟨[.word text], Lexes.word h fun _ before => before.not_isNameChar,
    .looser (.word text)⟩
  start := (Spells.word h).start

/-- A member of what the code is read as. -/
theorem member (h : SpellsPostfix code e) {name : String}
    (identifier : isIdentifier name.toList = true) :
    SpellsPostfix (code ++ "." ++ name) (.member e name) := by
  obtain ⟨ts, lexes, derives⟩ := h.reads
  constructor
  · refine ⟨ts ++ [.point, .word name], ?_, .member name derives⟩
    have named : Lexes BeforePostfix name [.word name] :=
      Lexes.word identifier fun _ before => before.not_isNameChar
    have behind := Lexes.point.append named fun _ _ => True.intro
    have whole := lexes.append behind fun _ _ => by simp [BeforePostfix]
    simpa only [String.append_assoc, List.singleton_append] using whole
  · simpa only [String.append_assoc] using h.start_append ("." ++ name)

theorem length (h : SpellsPostfix code e) :
    SpellsPostfix (code ++ ".length") (.member e "length") := by
  have text : code ++ ".length" = code ++ "." ++ "length" := by
    rw [String.append_assoc]
    rfl
  rw [text]
  exact h.member (by decide)

/-- A call of what the code is read as. -/
theorem call (h : SpellsPostfix code f) {arguments : List (String × Expression)}
    (each : ∀ argument ∈ arguments, Spells argument.1 .anything argument.2) :
    SpellsPostfix (code ++ "(" ++ argumentText (arguments.map (·.1)) ++ ")")
      (.call f (arguments.map (·.2))) := by
  obtain ⟨ts, lexes, derives⟩ := h.reads
  obtain ⟨read, lexes', each', same⟩ := exists_lexes_arguments each
  constructor
  · refine ⟨ts ++ .opening :: (commaSeparated (read.map (·.1)) ++ [.closing]), ?_,
      same ▸ .call read derives each'⟩
    have inner : Lexes BeforePostfix (argumentText (arguments.map (·.1)) ++ ")")
        (commaSeparated (read.map (·.1)) ++ [.closing]) :=
      lexes'.append Lexes.closing.anywhere fun _ _ => by simp [Boundary]
    have behind := Lexes.opening.append inner fun _ _ => True.intro
    have whole := lexes.append behind fun _ _ => by simp [BeforePostfix]
    simpa only [String.append_assoc, List.singleton_append] using whole
  · simpa only [String.append_assoc] using
      h.start_append ("(" ++ (argumentText (arguments.map (·.1)) ++ ")"))

end SpellsPostfix

namespace Arithmetic
variable {R : Type u} [CommRing R] (a : Arithmetic R) (atom : Expression → Option R)

/-- The value of an expression where members, calls and the like have values of their own. -/
def valueWith : Expression → Option R
  | .numeral text =>
      if text.toList.all isAsciiDigit then some (digitsValue text.toList : Nat) else none
  | .name text => some (a.name text)
  | .prefixed .minus e => (valueWith e).map Neg.neg
  | .infixed op l r => (valueWith l).bind fun x => (valueWith r).bind fun y => a.apply op x y
  | e => atom e

/-- An expression that has a value by itself keeps it. -/
theorem valueWith_of_value {e : Expression} {x : R} (h : a.value e = some x) :
    a.valueWith atom e = some x := by
  fun_induction a.value e generalizing x with
  | case1 text digits => simpa [valueWith, digits] using h
  | case2 text digits => contradiction
  | case3 text => exact h
  | case4 e ih =>
      obtain ⟨y, known, rfl⟩ := Option.map_eq_some_iff.mp h
      rw [valueWith, ih known]
      rfl
  | case5 op l r ihl ihr =>
      obtain ⟨y, left, h⟩ := Option.bind_eq_some_iff.mp h
      obtain ⟨z, right, h⟩ := Option.bind_eq_some_iff.mp h
      rw [valueWith, ihl left, ihr right]
      exact h
  | case6 => contradiction

variable {a atom}

theorem valueWith_infixed {op : Operator} {l r : Expression} {x y : R}
    (left : a.valueWith atom l = some x) (right : a.valueWith atom r = some y) :
    a.valueWith atom (.infixed op l r) = a.apply op x y := by
  rw [valueWith, left, right]
  rfl

variable (a)

/-- The arithmetic in which a name stands for a number. -/
def assign (name : String) (x : R) : Arithmetic R :=
  { a with name := Function.update a.name name x }

end Arithmetic

end BlockScript
