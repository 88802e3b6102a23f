import BlockScript.Precedence

/-! # The grammar of expressions

Expressions as trees, and the tokens that spell them. A token list may spell an expression at a
level if its loosest operator binds at least that strongly. Operators of two operands group to the
left, the ternary one to the right. -/

namespace BlockScript

/-- Operators between two operands. -/
inductive Operator where
  | times | dividedBy | modulo | plus | minus | less | lessEqual | greater | greaterEqual | equal
  | unequal | and | or
deriving DecidableEq, Repr

namespace Operator

def sign : Operator → String
  | times => "*"
  | dividedBy => "/"
  | modulo => "%"
  | plus => "+"
  | minus => "-"
  | less => "<"
  | lessEqual => "<="
  | greater => ">"
  | greaterEqual => ">="
  | equal => "=="
  | unequal => "!="
  | and => "&&"
  | or => "||"

def level : Operator → Precedence
  | times | dividedBy | modulo => .multiplicative
  | plus | minus => .additive
  | less | lessEqual | greater | greaterEqual => .relational
  | equal | unequal => .equality
  | and => .logicalAnd
  | or => .logicalOr

def ofSign? : String → Option Operator
  | "*" => some times
  | "/" => some dividedBy
  | "%" => some modulo
  | "+" => some plus
  | "-" => some minus
  | "<" => some less
  | "<=" => some lessEqual
  | ">" => some greater
  | ">=" => some greaterEqual
  | "==" => some equal
  | "!=" => some unequal
  | "&&" => some and
  | "||" => some or
  | _ => none

/-- Operators whose nested uses may be grouped either way. -/
def isConnective (op : Operator) : Prop := op = and ∨ op = or

@[simp] theorem ofSign?_sign (op : Operator) : ofSign? op.sign = some op := by
  cases op <;> rfl

theorem tighter_rank_lt (op : Operator) : op.level.tighter.rank < op.level.rank := by
  cases op <;> decide

/-- The level of a connective is the level of no other operator. -/
theorem isConnective.eq_of_level_eq {op other : Operator} (h : op.isConnective)
    (hl : other.level = op.level) : other = op := by
  rcases h with rfl | rfl <;> cases other <;> first | rfl | exact absurd hl (by decide)

end Operator

/-- Operators in front of an operand. -/
inductive PrefixOperator where
  | minus
  | not
deriving DecidableEq, Repr

namespace PrefixOperator

def sign : PrefixOperator → String
  | minus => "-"
  | not => "!"

def ofSign? : String → Option PrefixOperator
  | "-" => some minus
  | "!" => some not
  | _ => none

@[simp] theorem ofSign?_sign (op : PrefixOperator) : ofSign? op.sign = some op := by
  cases op <;> rfl

end PrefixOperator

inductive Expression where
  | numeral (text : String)
  | truth (value : Bool)
  | null
  | name (text : String)
  | member (owner : Expression) (name : String)
  | call (f : Expression) (arguments : List Expression)
  | prefixed (op : PrefixOperator) (operand : Expression)
  | infixed (op : Operator) (left right : Expression)
  | choice (condition yes no : Expression)
deriving Repr

namespace Expression

/-- What a word stands for by itself. -/
def ofWord : String → Expression
  | "true" => truth true
  | "false" => truth false
  | "null" => null
  | word => name word

/-- Do two expressions differ in the grouping of nested connectives at most? -/
inductive Reassociates : Expression → Expression → Prop
  | regroup {op : Operator} (h : op.isConnective) (a b c : Expression) :
      Reassociates (infixed op (infixed op a b) c) (infixed op a (infixed op b c))
  | refl (e : Expression) : Reassociates e e
  | symm {a b : Expression} : Reassociates a b → Reassociates b a
  | trans {a b c : Expression} : Reassociates a b → Reassociates b c → Reassociates a c
  | member {a b : Expression} (name : String) :
      Reassociates a b → Reassociates (member a name) (member b name)
  | call {f g : Expression} (arguments : List (Expression × Expression)) :
      Reassociates f g → (∀ pair ∈ arguments, Reassociates pair.1 pair.2) →
      Reassociates (call f (arguments.map (·.1))) (call g (arguments.map (·.2)))
  | prefixed {a b : Expression} (op : PrefixOperator) :
      Reassociates a b → Reassociates (prefixed op a) (prefixed op b)
  | infixed {a b c d : Expression} (op : Operator) :
      Reassociates a b → Reassociates c d → Reassociates (infixed op a c) (infixed op b d)
  | choice {a b c d e f : Expression} :
      Reassociates a b → Reassociates c d → Reassociates e f →
      Reassociates (choice a c e) (choice b d f)

end Expression

inductive Token where
  | numeral (text : String)
  | word (text : String)
  | operator (sign : String)
  | opening
  | closing
  | comma
  | point
  | question
  | colon
deriving DecidableEq, Repr

/-- Token lists with commas between them. -/
def commaSeparated : List (List Token) → List Token
  | [] => []
  | [ts] => ts
  | ts :: rest => ts ++ .comma :: commaSeparated rest

/-- Do tokens spell an expression that fits a place of some level? -/
inductive Derives : Precedence → List Token → Expression → Prop
  | numeral (text : String) : Derives .atomic [.numeral text] (.numeral text)
  | word (text : String) : Derives .atomic [.word text] (.ofWord text)
  | parenthesized {ts : List Token} {e : Expression} (inner : Derives .anything ts e) :
      Derives .atomic (.opening :: (ts ++ [.closing])) e
  | member {ts : List Token} {e : Expression} (name : String) (owner : Derives .unaryPostfix ts e) :
      Derives .unaryPostfix (ts ++ [.point, .word name]) (.member e name)
  | call {ts : List Token} {f : Expression} (arguments : List (List Token × Expression))
      (called : Derives .unaryPostfix ts f)
      (each : ∀ argument ∈ arguments, Derives .anything argument.1 argument.2) :
      Derives .unaryPostfix
        (ts ++ .opening :: (commaSeparated (arguments.map (·.1)) ++ [.closing]))
        (.call f (arguments.map (·.2)))
  | prefixed {ts : List Token} {e : Expression} (op : PrefixOperator)
      (operand : Derives .unaryPrefix ts e) :
      Derives .unaryPrefix (.operator op.sign :: ts) (.prefixed op e)
  | infixed {ts us : List Token} {a b : Expression} (op : Operator)
      (left : Derives op.level ts a) (right : Derives op.level.tighter us b) :
      Derives op.level (ts ++ .operator op.sign :: us) (.infixed op a b)
  | choice {ts us vs : List Token} {a b c : Expression}
      (condition : Derives Precedence.conditional.tighter ts a)
      (yes : Derives .conditional us b) (no : Derives .conditional vs c) :
      Derives .conditional (ts ++ .question :: (us ++ .colon :: vs)) (.choice a b c)
  /-- What fits a place fits every looser one. -/
  | looser {p : Precedence} {ts : List Token} {e : Expression} (tight : Derives p.tighter ts e) :
      Derives p ts e

namespace Derives
variable {p q : Precedence} {ts us : List Token} {a b e : Expression}

theorem mono (h : Derives p ts e) (hle : p.rank ≤ q.rank) : Derives q ts e := by
  -- Down from the looser level, one level at a time.
  generalize hd : q.rank - p.rank = d
  induction d generalizing q with
  | zero =>
      obtain rfl : p = q := Precedence.rank_injective (by omega)
      exact h
  | succ d ih =>
      apply looser
      apply ih <;> rw [Precedence.rank_tighter] <;> omega

/-- Between two operands at its own level, a connective takes the right one apart: what is read
is grouped to the left throughout. -/
theorem connective {op : Operator} (h : op.isConnective) (left : Derives op.level ts a)
    (right : Derives op.level us b) :
    ∃ e, Derives op.level (ts ++ .operator op.sign :: us) e ∧
      e.Reassociates (.infixed op a b) := by
  generalize hp : op.level = p at right
  induction right with
  | @infixed us vs b c other hb hc ihb =>
      obtain rfl := h.eq_of_level_eq hp.symm
      obtain ⟨e, he, hr⟩ := ihb rfl
      refine ⟨.infixed other e c, ?_, ?_⟩
      · have joined := infixed other he hc
        simpa only [List.append_assoc, List.cons_append] using joined
      · apply Expression.Reassociates.trans
        · exact .infixed other hr (.refl c)
        · exact .regroup h a b c
  | looser tight =>
      subst hp
      exact ⟨_, infixed op left tight, .refl _⟩
  | _ => rcases h with rfl | rfl <;> exact absurd hp (by decide)

end Derives

end BlockScript
