import BlockScript.Names
import BlockScript.Table
import BlockScript.Text.Lines
import BlockScript.Text.Replace

/-! # Definitions

What a script needs before its body: imports, helper functions, and the procedures and handlers
of the user. Each stands under a key and in the order in which the keys came up. A helper is
defined once, under a name that no one else has. -/

namespace BlockScript

namespace Text

/-- A text `n` times over. -/
def repeated (text : String) : Nat → String
  | 0 => ""
  | n + 1 => text ++ repeated text n

theorem mem_of_mem_repeated {text : String} {n : Nat} {c : Char}
    (h : c ∈ (repeated text n).toList) : c ∈ text.toList := by
  induction n with
  | zero => exact absurd h List.not_mem_nil
  | succ n ih =>
      rw [repeated, String.toList_append, List.mem_append] at h
      exact h.elim id ih

theorem repeated_add (text : String) (m n : Nat) :
    repeated text (m + n) = repeated text m ++ repeated text n := by
  induction m with
  | zero => rw [Nat.zero_add, repeated, String.empty_append]
  | succ m ih => rw [Nat.succ_add, repeated, repeated, ih, String.append_assoc]

end Text

/-- An import that scripts ask for. -/
inductive Module where
  | math
  | html
deriving DecidableEq, Repr

namespace Module

def key : Module → String
  | math => "import_rhai_math"
  | html => "import_rhai_html"

def code : Module → String
  | math => "import 'rhai:math' as Math;"
  | html => "import 'rhai:html' as Html;"

end Module

structure Definitions where
  imports : Table String := []
  definitions : Table String := []
  helperNames : Table String := []
deriving DecidableEq, Repr

namespace Definitions

/-- What stands for the helper's name in its template. -/
def namePlaceholder : String := "\x7bfn\x7d"

/-- The unit of indentation in templates. -/
def templateIndent : String := "  "

/-- The number of spaces in front of a line. -/
def leadingSpaces (line : List Char) : Nat := (line.takeWhile (· = ' ')).length

/-- Replace each unit of indentation in front of a template line by `indent`. -/
def reindent (indent line : String) : String :=
  if indent = templateIndent then line
  else
    let units := leadingSpaces line.toList / 2
    Text.repeated indent units ++ String.ofList (line.toList.drop (units * 2))

/-- The code of a helper with a given name. -/
def helperCode (template : List String) (indent name : String) : String :=
  Text.joinLines (template.map fun line =>
    reindent indent (Text.replaceAll line namePlaceholder name))

/-- Forget the imports, the definitions and the names of the helpers. -/
def reset (d : Definitions) : Definitions :=
  { d with imports := [], definitions := [], helperNames := [] }

/-- The first code given for an import stays. -/
def addImport (d : Definitions) (key code : String) : Definitions :=
  { d with imports := d.imports.putNew key code }

/-- A definition that is there stays. -/
def addDefinition (d : Definitions) (key code : String) : Definitions :=
  { d with definitions := d.definitions.putNew key code }

/-- A definition that is there gives way, in its place. -/
def setDefinition (d : Definitions) (key code : String) : Definitions :=
  { d with definitions := d.definitions.put key code }

/-- The name of a helper, which is defined at the first request. -/
def provide (d : Definitions) (names : Names) (key : String) (template : List String)
    (indent : String) : String × Names × Definitions :=
  match d.helperNames.get? key with
  | some name => (name, names, d)
  | none =>
      let (name, names) := names.distinct key
      (name, names,
        { d with
          helperNames := d.helperNames.put key name
          definitions := d.definitions.put key (helperCode template indent name) })

end Definitions

end BlockScript
