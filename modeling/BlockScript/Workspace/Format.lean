import BlockScript.Workspace.OfJson
import BlockScript.Workspace.OfXml

/-! # Formats of saved workspaces

A workspace is saved as XML or as JSON. The end of a file's name tells which, and otherwise the
first character that is not blank. -/

namespace BlockScript

inductive WorkspaceFormat where
  | xml
  | json
deriving DecidableEq, Repr

namespace WorkspaceFormat

/-- The parts of a path between slashes, without empty ones and single dots. -/
def pathParts (path : List Char) : List (List Char) :=
  (path.splitOn '/').filter fun part => !part.isEmpty && part ≠ ['.']

/-- The last part of a path, unless that goes up. -/
def fileName? (path : String) : Option (List Char) :=
  (pathParts path.toList).getLast?.filter (· ≠ ['.', '.'])

/-- What follows the last dot of a name, unless the name starts with that dot. -/
def extension? (name : List Char) : Option (List Char) :=
  let reversed := name.reverse
  match reversed.dropWhile (· ≠ '.') with
  | _ :: _ :: _ => some (reversed.takeWhile (· ≠ '.')).reverse
  | _ => none

/-- The format that the extension of a path tells, in small letters or capitals. -/
def ofPath? (path : String) : Option WorkspaceFormat :=
  match ((fileName? path).bind extension?).map fun e => String.ofList (e.map Number.lowerAscii) with
  | some "xml" => some xml
  | some "json" => some json
  | _ => none

/-- The format that the first character of a text tells. -/
def sniff (text : String) : WorkspaceFormat :=
  match Text.trimStart text.toList with
  | '{' :: _ => json
  | '[' :: _ => json
  | _ => xml

end WorkspaceFormat

/-- The workspace that a text in a format holds. -/
def Workspace.load (format : WorkspaceFormat) (text : String) : Except LoadError Workspace :=
  match format with
  | .xml => Workspace.OfXml.load text
  | .json => Workspace.OfJson.load text

end BlockScript
