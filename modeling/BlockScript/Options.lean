import BlockScript.Text.Quoted

/-! # Options of the generator -/

namespace BlockScript

/-- What happens when a block at the top fails. -/
inductive ErrorPolicy where
  /-- The pass stops with the error. -/
  | abort
  /-- A comment takes the block's place, and the pass goes on. -/
  | comment
deriving DecidableEq, Repr

/-- In the three templates `%1` stands for the quoted id of the block. -/
structure Options where
  /-- Goes in front of every statement. -/
  statementPrefix : Option String := none
  /-- Goes behind every statement. -/
  statementSuffix : Option String := none
  /-- Goes to the top of loop and procedure bodies. -/
  loopTrap : Option String := none
  oneBasedIndex : Bool := true
  indent : String := "  "
  errorPolicy : ErrorPolicy := .abort
deriving DecidableEq, Repr

namespace Options

/-- A template for one block; an empty template counts as none. -/
def instantiate (template : Option String) (id : String) : Option String :=
  (template.filter (· ≠ "")).map (Text.injectId · id)

def prefixFor (o : Options) (id : String) : Option String := instantiate o.statementPrefix id

def suffixFor (o : Options) (id : String) : Option String := instantiate o.statementSuffix id

def trapFor (o : Options) (id : String) : Option String := instantiate o.loopTrap id

/-- The text of the index that a missing index input stands for. -/
def firstIndex (o : Options) : String := if o.oneBasedIndex then "1" else "0"

end Options

end BlockScript
