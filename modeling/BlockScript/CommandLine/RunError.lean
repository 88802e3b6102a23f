import BlockScript.CommandLine.Host
import BlockScript.GenerateError
import BlockScript.Workspace.LoadError

/-! # What can go wrong with a run -/

namespace BlockScript.CommandLine

inductive RunError where
  | inputNotFound (path : String)
  /-- The full path of the input cannot be told. -/
  | unresolved (error : FileError)
  | configUnreadable (path : String) (error : FileError)
  | configInvalid (path : String)
  | unreadable (path : String) (error : FileError)
  | unloadable (path : String) (error : LoadError)
  | generation (error : GenerateError)
  | unwritable (path : String) (error : FileError)
deriving DecidableEq, Repr

namespace RunError

/-- What is said about bad options. -/
def invalidOptions : String := "Invalid generator options JSON."

/-- A path in quotes. -/
def quoted (path : String) : String := "'" ++ path ++ "'"

/-- What is said about an error, from what failed down to its cause. -/
def messages : RunError → List String
  | inputNotFound path => ["Input file not found: " ++ quoted path ++ "."]
  | unresolved error => [error.message]
  | configUnreadable path error =>
      ["Failed to read options file " ++ quoted path ++ ".", error.message]
  | configInvalid path => ["Invalid options in " ++ quoted path ++ ".", invalidOptions]
  | unreadable path error => ["Failed to read " ++ quoted path ++ ".", error.message]
  | unloadable path error => ["Failed to load workspace " ++ quoted path ++ ".", error.message]
  | generation error => [error.message]
  | unwritable path error => ["Failed to write " ++ quoted path ++ ".", error.message]

end RunError

end BlockScript.CommandLine
