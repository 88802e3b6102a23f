import Mathlib.Algebra.Ring.Defs
import BlockScript.Proofs.Expression.Grammar
import BlockScript.Proofs.Number.WholeText

/-! # The value of arithmetic

Expressions of whole numbers, names, signs and the four operations with remainders, and their value
in any commutative ring. What names stand for is left open, and so is division, which may have no
result. -/

namespace BlockScript

open Text Number

universe u

/-- What names stand for, and what the two divisions give, if anything. -/
structure Arithmetic (R : Type u) where
  name : String → R
  quotient : R → R → Option R
  remainder : R → R → Option R

namespace Arithmetic

variable {R : Type u} [CommRing R] (a : Arithmetic R)

def apply : Operator → R → R → Option R
  | .plus, x, y => some (x + y)
  | .minus, x, y => some (x - y)
  | .times, x, y => some (x * y)
  | .dividedBy, x, y => a.quotient x y
  | .modulo, x, y => a.remainder x y
  | _, _, _ => none

/-- The value of an expression. A numeral of digits is a whole number. -/
def value : Expression → Option R
  | .numeral text =>
      if text.toList.all isAsciiDigit then some (digitsValue text.toList : Nat) else none
  | .name text => some (a.name text)
  | .prefixed .minus e => (value e).map Neg.neg
  | .infixed op l r => (value l).bind fun x => (value r).bind fun y => a.apply op x y
  | _ => none

end Arithmetic

/-- The numeral of a whole number, as a block writes it; its sign is not part of it. -/
def IsWholeNumeral (text : String) : Prop :=
  ∃ raw x n, readField raw = some x ∧ Binary64.whole? x = some n ∧ text = x.magnitude.scriptText

/-- The operators of arithmetic. -/
def Operator.arithmetic : List Operator := [times, dividedBy, modulo, plus, minus]

/-- Expressions of arithmetic on whole numbers. -/
inductive Expression.IsArithmetic : Expression → Prop
  | numeral {text : String} (h : IsWholeNumeral text) : IsArithmetic (.numeral text)
  | name (text : String) : IsArithmetic (.name text)
  | negation {e : Expression} (operand : IsArithmetic e) : IsArithmetic (.prefixed .minus e)
  | infixed {op : Operator} {l r : Expression} (h : op ∈ Operator.arithmetic)
      (left : IsArithmetic l) (right : IsArithmetic r) : IsArithmetic (.infixed op l r)

/-- Arithmetic has no connectives that could be grouped in another way. -/
theorem Expression.Reassociates.eq_of_isArithmetic {a b : Expression} (h : a.Reassociates b) :
    (a.IsArithmetic → a = b) ∧ (b.IsArithmetic → a = b) := by
  induction h with
  | regroup h a b c =>
      refine ⟨fun arithmetic => ?_, fun arithmetic => ?_⟩
      · cases arithmetic with
        | infixed known => rcases h with rfl | rfl <;> exact absurd known (by decide)
      · cases arithmetic with
        | infixed known => rcases h with rfl | rfl <;> exact absurd known (by decide)
  | refl e => exact ⟨fun _ => rfl, fun _ => rfl⟩
  | symm _ ih => exact ⟨fun h => (ih.2 h).symm, fun h => (ih.1 h).symm⟩
  | trans _ _ ih ih' =>
      refine ⟨fun h => ?_, fun h => ?_⟩
      · obtain rfl := ih.1 h
        exact ih'.1 h
      · obtain rfl := ih'.2 h
        exact ih.2 h
  | member name _ _ => exact ⟨nofun, nofun⟩
  | call arguments _ _ _ _ => exact ⟨nofun, nofun⟩
  | prefixed op _ ih =>
      refine ⟨fun h => ?_, fun h => ?_⟩
      · cases h with
        | negation operand => rw [ih.1 operand]
      · cases h with
        | negation operand => rw [ih.2 operand]
  | infixed op _ _ ih ih' =>
      refine ⟨fun h => ?_, fun h => ?_⟩
      · cases h with
        | infixed _ left right => rw [ih.1 left, ih'.1 right]
      · cases h with
        | infixed _ left right => rw [ih.2 left, ih'.2 right]
  | choice _ _ _ _ _ _ => exact ⟨nofun, nofun⟩

/-- The tokens of arithmetic. -/
inductive Token.IsArithmetic : Token → Prop
  | numeral {text : String} (h : IsWholeNumeral text) : IsArithmetic (.numeral text)
  | word (text : String) : IsArithmetic (.word text)
  | operator {op : Operator} (h : op ∈ Operator.arithmetic) : IsArithmetic (.operator op.sign)
  | opening : IsArithmetic .opening
  | closing : IsArithmetic .closing

/-- Arithmetic is spelled with tokens of arithmetic. -/
theorem Derives.isArithmetic_of_mem {p : Precedence} {ts : List Token} {e : Expression}
    (h : Derives p ts e) (arithmetic : e.IsArithmetic) : ∀ t ∈ ts, t.IsArithmetic := by
  induction h with
  | numeral text =>
      cases arithmetic with
      | numeral h => simpa using Token.IsArithmetic.numeral h
  | word text => simpa using Token.IsArithmetic.word text
  | parenthesized _ ih =>
      simp only [List.forall_mem_cons, List.forall_mem_append]
      exact ⟨.opening, ih arithmetic, .closing, nofun⟩
  | member name _ _ => cases arithmetic
  | call _ _ _ _ _ => cases arithmetic
  | prefixed op _ ih =>
      cases arithmetic with
      | negation operand =>
          have sign := @Token.IsArithmetic.operator .minus (by decide)
          exact List.forall_mem_cons.mpr ⟨sign, ih operand⟩
  | infixed op _ _ iha ihb =>
      cases arithmetic with
      | infixed known left right =>
          simp only [List.forall_mem_append, List.forall_mem_cons]
          exact ⟨iha left, .operator known, ihb right⟩
  | choice _ _ _ _ _ _ => cases arithmetic
  | looser _ ih => exact ih arithmetic

end BlockScript
