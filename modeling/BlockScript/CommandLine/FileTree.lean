import BlockScript.CommandLine.Host
import BlockScript.Workspace.Format

/-! # A tree of files

Files and directories as a value. A path is followed part by part, from the top if it begins with
a slash and from the working directory otherwise. Every part but the last has to be there and to
be a directory. -/

namespace BlockScript.CommandLine

inductive Entry where
  | directory
  /-- A file; none stands for bytes that are no text. -/
  | file (text : Option String)
  /-- A device, which holds nothing and forgets what is written; a full one takes nothing. -/
  | device (isFull : Bool)
deriving DecidableEq, Repr

structure FileTree where
  /-- The working directory, by the parts of its full path. -/
  base : List String := []
  /-- What lies below the top, by the parts of the full path. -/
  entries : List (List String × Entry) := []
deriving Repr

/-- A place in the tree, by the parts of its full path from the last to the first. -/
abbrev Location := List String

namespace FileTree

def entry? (t : FileTree) (place : Location) : Option Entry :=
  if place.isEmpty then some .directory
  else (t.entries.find? fun e => e.1 = place.reverse).map (·.2)

/-- How many bytes a part of a path may have. -/
def maxPartSize : Nat := 255

/-- How many bytes a path may have. -/
def maxPathSize : Nat := 4095

/-- Follow the parts of a path, up to one that is missing at the end. -/
def follow (t : FileTree) (place : Location) : List String → Except FileError Location
  | [] => .ok place
  | part :: rest =>
      match t.entry? place with
      | none => .error .notFound
      | some (.file _) | some (.device _) => .error .notADirectory
      | some .directory =>
          if part = "." ∨ part = "" then follow t place rest
          else if part = ".." then follow t place.tail rest
          else if maxPartSize < part.utf8ByteSize then .error .nameTooLong
          else follow t (part :: place) rest

def parts (path : String) : List String := (path.toList.splitOn '/').map String.ofList

/-- The place where a path begins. -/
def start (t : FileTree) (path : String) : Location :=
  if path.toList.head? = some '/' then [] else t.base.reverse

/-- The parts of a text that may be a path. -/
def partsOfPath (path : String) : Except FileError (List String) :=
  if path.toList.contains '\x00' then .error .zeroInName
  else if path = "" then .error .notFound
  else if maxPathSize < path.utf8ByteSize then .error .nameTooLong
  else .ok (parts path)

/-- The place that a path leads to. A slash at the end asks for a directory. -/
def locate (t : FileTree) (path : String) : Except FileError Location := do
  t.follow (t.start path) (← partsOfPath path)

def isFile (t : FileTree) (path : String) : Bool :=
  match t.locate path with
  | .ok place =>
      match t.entry? place with
      | some (.file _) => true
      | _ => false
  | .error _ => false

/-- The text of a file. -/
def readText (t : FileTree) (path : String) : Except FileError String := do
  let place ← t.locate path
  match t.entry? place with
  | none => .error .notFound
  | some .directory => .error .isADirectory
  | some (.device _) => .ok ""
  | some (.file none) => .error .notText
  | some (.file (some text)) => .ok text

/-- The path of a place from the top. -/
def pathOf (place : Location) : String := "/" ++ "/".intercalate place.reverse

def fullPath (t : FileTree) (path : String) : Except FileError String := do
  let place ← t.locate path
  match t.entry? place with
  | none => .error .notFound
  | some _ => .ok (pathOf place)

def putEntry (path : List String) (e : Entry) :
    List (List String × Entry) → List (List String × Entry)
  | [] => [(path, e)]
  | (p, old) :: rest => if p = path then (p, e) :: rest else (p, old) :: putEntry path e rest

/-- Parts without the empty ones at their end, and whether there were any. -/
def dropSlashes (ps : List String) : List String × Bool :=
  let trimmed := (ps.reverse.dropWhile (· = "")).reverse
  (trimmed, trimmed.length < ps.length)

/-- The place of a file to write, which may be missing but has a directory to go to. A path with
a slash at the end names no file, whatever its last part is. -/
def locateTarget (t : FileTree) (path : String) : Except FileError Location := do
  let (ps, asksDirectory) := dropSlashes (← partsOfPath path)
  if asksDirectory then
    let _ ← t.follow (t.start path) (ps.dropLast ++ ["."])
    throw .isADirectory
  else t.follow (t.start path) ps

/-- Write a file, which is made if it is not there. -/
def writeText (t : FileTree) (path text : String) : Except FileError FileTree := do
  let place ← t.locateTarget path
  match t.entry? place with
  | some .directory => throw .isADirectory
  | some (.device isFull) => if isFull ∧ text ≠ "" then throw .noSpaceLeft else pure t
  | _ => pure { t with entries := putEntry place.reverse (.file (some text)) t.entries }

/-- Put an entry with the directories that lead to it. -/
def add (t : FileTree) (path : List String) (e : Entry) : FileTree :=
  let outer := (List.range path.length).drop 1 |>.map path.take
  let entries := outer.foldl (fun es p => putEntry p .directory es) t.entries
  { t with entries := putEntry path e entries }

/-- What every system has. The texts of its files do not matter, apart from being no input. -/
def systemEntries : List (List String × Entry) :=
  [(["dev", "null"], .device false), (["dev", "zero"], .device false),
    (["dev", "full"], .device true), (["etc", "passwd"], .file (some "root:x:0:0")),
    (["etc", "hosts"], .file (some "localhost")), (["home"], .directory), (["proc"], .directory),
    (["root"], .directory), (["tmp"], .directory), (["usr"], .directory), (["var"], .directory)]

/-- A system with an empty working directory. -/
def standard (base : List String) : FileTree :=
  let system : FileTree := systemEntries.foldl (fun t e => t.add e.1 e.2) { base }
  system.add base .directory

end FileTree

/-- A tree of files and what was said on the two channels. -/
structure World where
  files : FileTree
  printed : String := ""
  noted : String := ""

/-- A tree of files as the surroundings of a run. -/
def World.host : Host (StateM World) where
  isFile path := do return (← get).files.isFile path
  fullPath path := do return (← get).files.fullPath path
  readText path := do return (← get).files.readText path
  writeText path text := do
    match (← get).files.writeText path text with
    | .ok files => modify ({ · with files }); return .ok ()
    | .error error => return .error error
  print text := modify fun w => { w with printed := w.printed ++ text }
  note text := modify fun w => { w with noted := w.noted ++ text }

end BlockScript.CommandLine
