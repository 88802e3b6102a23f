import BlockScript.GenerateError
import BlockScript.Helper
import BlockScript.Definitions
import BlockScript.Precedence

/-! # Scripts of requests

What the code of one block is made of, as data. A script asks, one request after another, for
the code of plugged-in blocks, for names, helpers and imports, and ends with the code or with an
error. It says nothing about how the requests are met, so a law about all blocks of a kind is
proved by following their script. -/

namespace BlockScript

/-- The code of a block. -/
inductive Emitted where
  /-- An expression, and how strongly it binds. -/
  | value (code : String) (level : Precedence)
  /-- Complete statements. -/
  | statement (code : String)
  /-- Nothing at this place. -/
  | nothing
deriving DecidableEq, Repr

inductive Script (α : Type) where
  | done (a : α)
  | fail (error : GenerateError)
  /-- The code of the block in a value input, fit for a place of the given level. -/
  | value (input : String) (level : Precedence) (next : Option String → Script α)
  /-- The code of the chain in a statement input, indented. -/
  | body (input : String) (next : String → Script α)
  /-- Is there a chain in a statement input? -/
  | hasBody (input : String) (next : Bool → Script α)
  /-- The comment lines of the block. -/
  | remarks (next : String → Script α)
  /-- The name of a variable or a procedure. -/
  | name (category : NameCategory) (raw : String) (next : String → Script α)
  /-- A name for a temporary. -/
  | temporary (base : String) (next : String → Script α)
  /-- The name of a helper function. -/
  | helper (h : Helper) (next : String → Script α)
  | require (m : Module) (next : Script α)
  | define (key code : String) (next : Script α)
  | clearWidgets (next : Script α)
  | addWidget (widget code : String) (next : Script α)
  /-- The constructors of the widgets added so far. -/
  | widgets (next : List String → Script α)

namespace Script
variable {α β γ : Type}

def bind : Script α → (α → Script β) → Script β
  | done a, f => f a
  | fail error, _ => fail error
  | value input level next, f => value input level fun x => (next x).bind f
  | body input next, f => body input fun x => (next x).bind f
  | hasBody input next, f => hasBody input fun x => (next x).bind f
  | remarks next, f => remarks fun x => (next x).bind f
  | name category raw next, f => name category raw fun x => (next x).bind f
  | temporary base next, f => temporary base fun x => (next x).bind f
  | helper h next, f => helper h fun x => (next x).bind f
  | require m next, f => require m (next.bind f)
  | define key code next, f => define key code (next.bind f)
  | clearWidgets next, f => clearWidgets (next.bind f)
  | addWidget widget code next, f => addWidget widget code (next.bind f)
  | widgets next, f => widgets fun x => (next x).bind f

instance : Monad Script where
  pure := done
  bind := bind

@[simp] theorem done_bind (a : α) (f : α → Script β) : (done a >>= f) = f a := rfl

@[simp] theorem pure_eq_done (a : α) : (pure a : Script α) = done a := rfl

@[simp] theorem fail_bind (error : GenerateError) (f : α → Script β) :
    (fail error >>= f) = fail error := rfl

theorem bind_done (s : Script α) : s.bind done = s := by
  induction s with
  | hasBody input next ih => simp only [bind, ih]
  | _ => simp_all [bind]

theorem bind_assoc (s : Script α) (f : α → Script β) (g : β → Script γ) :
    (s.bind f).bind g = s.bind fun a => (f a).bind g := by
  induction s with
  | hasBody input next ih => simp only [bind, ih]
  | _ => simp_all [bind]

instance : LawfulMonad Script :=
  LawfulMonad.mk' Script (fun s => bind_done s) (fun _ _ => rfl) bind_assoc

/-! Requests as steps of their own. -/

def value? (input : String) (level : Precedence) : Script (Option String) :=
  value input level done

/-- The code in a value input, or a default where there is none. -/
def valueOr (input : String) (level : Precedence) (default : String) : Script String :=
  value input level fun code => done (code.getD default)

def bodyOf (input : String) : Script String := body input done

def isPlugged (input : String) : Script Bool := hasBody input done

def ownRemarks : Script String := remarks done

def variableName (raw : String) : Script String := name .variableName raw done

def procedureName (raw : String) : Script String := name .procedureName raw done

def temporaryName (base : String) : Script String := temporary base done

def helperName (h : Helper) : Script String := helper h done

def requireModule (m : Module) : Script Unit := require m (done ())

def defineAs (key code : String) : Script Unit := define key code (done ())

def forgetWidgets : Script Unit := clearWidgets (done ())

def addConstructor (widget code : String) : Script Unit := addWidget widget code (done ())

def constructors : Script (List String) := widgets done

/-- The code in the numbered inputs `base0`, `base1`, …, or a default for each empty one. -/
def numberedValues (base : String) (level : Precedence) (default : String) (count : Nat) :
    Script (List String) :=
  (List.range count).mapM fun i => valueOr (base ++ toString i) level default

/-- An expression that ends in a call or a member. -/
def postfixValue (code : String) : Script Emitted := done (.value code .unaryPostfix)

end Script

namespace Node

/-- The value of a field that a block cannot do without. -/
def requiredField (n : Node) (field : String) : Script String :=
  match n.field field with
  | some value => .done value
  | none => .fail (n.unknownOption field none)

/-- The value of a field, or the empty text. -/
def fieldText (n : Node) (field : String) : String := (n.field field).getD ""

end Node

end BlockScript
