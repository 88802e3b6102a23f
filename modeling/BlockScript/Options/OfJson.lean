import BlockScript.Options
import BlockScript.Json.Reader

/-! # Options from JSON

An object names the options it sets, each at most once and no others. An array gives them in
order and may stop early. -/

namespace BlockScript.Options
open Json

/-- The options that can be set, in order. -/
inductive Setting where
  | statementPrefix
  | statementSuffix
  | loopTrap
  | oneBasedIndex
  | indent
  | errorPolicy
deriving DecidableEq, Repr

namespace Setting

def all : List Setting :=
  [statementPrefix, statementSuffix, loopTrap, oneBasedIndex, indent, errorPolicy]

def key : Setting → String
  | statementPrefix => "statement_prefix"
  | statementSuffix => "statement_suffix"
  | loopTrap => "infinite_loop_trap"
  | oneBasedIndex => "one_based_index"
  | indent => "indent"
  | errorPolicy => "error_policy"

def ofKey? (key : String) : Option Setting := all.find? fun s => s.key = key

end Setting

/-- A template: a string, or null for none. -/
def template? : Value → Option (Option String)
  | .null => some none
  | .string s => some (some s)
  | _ => none

def policyNamed? (name : String) : Option ErrorPolicy :=
  if name = "abort" then some .abort
  else if name = "comment" then some .comment
  else none

/-- A policy by name, or as an object with that name and nothing under it. -/
def policy? : Value → Option ErrorPolicy
  | .string name => policyNamed? name
  | .object [(name, .null)] => policyNamed? name
  | _ => none

/-- Set one option. -/
def set? (o : Options) (setting : Setting) (v : Value) : Option Options :=
  match setting with
  | .statementPrefix => (template? v).map fun t => { o with statementPrefix := t }
  | .statementSuffix => (template? v).map fun t => { o with statementSuffix := t }
  | .loopTrap => (template? v).map fun t => { o with loopTrap := t }
  | .oneBasedIndex => v.asBool?.map fun b => { o with oneBasedIndex := b }
  | .indent => v.asString?.map fun s => { o with indent := s }
  | .errorPolicy => (policy? v).map fun p => { o with errorPolicy := p }

/-- Set the options that members name, none of which is in `done`. -/
def ofMembers (o : Options) (done : List Setting) : List (String × Value) → Option Options
  | [] => some o
  | (name, v) :: rest => do
      let setting ← Setting.ofKey? name
      if setting ∈ done then none
      else
        let o ← o.set? setting v
        ofMembers o (setting :: done) rest

/-- Set options in order, one for each item. -/
def ofItems (o : Options) : List Setting → List Value → Option Options
  | _, [] => some o
  | [], _ :: _ => none
  | setting :: settings, v :: rest => do
      let o ← o.set? setting v
      ofItems o settings rest

def ofValue? : Value → Option Options
  | .object members => ofMembers {} [] members
  | .array items => ofItems {} Setting.all items
  | _ => none

/-- The options that a text holds. -/
def ofJson? (text : String) : Option Options := (Json.read text).bind ofValue?

end BlockScript.Options
