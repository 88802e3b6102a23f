/-! # Precedence

How strongly a piece of an expression binds. A piece goes into a place that asks for some
strength as it is if it binds at least that strongly, and in parentheses otherwise. -/

namespace BlockScript

/-- Binding strengths, the tightest first. -/
inductive Precedence where
  /-- Literals, identifiers and bracketed forms. -/
  | atomic
  /-- Member access, indexing and calls. -/
  | unaryPostfix
  /-- Prefix operators. -/
  | unaryPrefix
  | multiplicative
  | additive
  | relational
  | equality
  | logicalAnd
  | logicalOr
  | conditional
  | assignment
  /-- Fits only where anything does. -/
  | anything
deriving DecidableEq, Repr

namespace Precedence

/-- The place in the list of levels, zero for the tightest. -/
def rank : Precedence → Nat
  | atomic => 0
  | unaryPostfix => 1
  | unaryPrefix => 2
  | multiplicative => 3
  | additive => 4
  | relational => 5
  | equality => 6
  | logicalAnd => 7
  | logicalOr => 8
  | conditional => 9
  | assignment => 10
  | anything => 11

/-- The next tighter level, which the right operand of a left-associative operator needs. -/
def tighter : Precedence → Precedence
  | atomic => atomic
  | unaryPostfix => atomic
  | unaryPrefix => unaryPostfix
  | multiplicative => unaryPrefix
  | additive => multiplicative
  | relational => additive
  | equality => relational
  | logicalAnd => equality
  | logicalOr => logicalAnd
  | conditional => logicalOr
  | assignment => conditional
  | anything => assignment

/-- Does a piece of level `inner` bind too weakly for a place of level `required`? -/
def needsParens (inner required : Precedence) : Bool := required.rank < inner.rank

def parenthesized (code : String) : String := "(" ++ code ++ ")"

/-- A piece as it goes into a place. -/
def wrap (code : String) (inner required : Precedence) : String :=
  if needsParens inner required then parenthesized code else code

theorem rank_injective : Function.Injective rank := by
  intro a b h
  cases a <;> cases b <;> first | rfl | exact absurd h (by decide)

@[simp] theorem rank_tighter (p : Precedence) : p.tighter.rank = p.rank - 1 := by
  cases p <;> rfl

@[simp] theorem needsParens_iff (inner required : Precedence) :
    needsParens inner required = true ↔ required.rank < inner.rank := by
  simp [needsParens]

@[simp] theorem wrap_anything (code : String) (inner : Precedence) :
    wrap code inner .anything = code := by
  cases inner <;> rfl

end Precedence

end BlockScript
