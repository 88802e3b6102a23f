/-! # What surrounds a run

A run of the program reads and writes files and says things on two channels. Each attempt to
read or write may fail. -/

namespace BlockScript.CommandLine

inductive FileError where
  | notFound
  | notADirectory
  | isADirectory
  | permissionDenied
  | nameTooLong
  | noSpaceLeft
  /-- No name of a file holds the character of number zero. -/
  | zeroInName
  /-- The bytes of the file are no text. -/
  | notText
  | other (description : String)
deriving DecidableEq, Repr

def FileError.message : FileError → String
  | notFound => "No such file or directory (os error 2)"
  | notADirectory => "Not a directory (os error 20)"
  | isADirectory => "Is a directory (os error 21)"
  | permissionDenied => "Permission denied (os error 13)"
  | nameTooLong => "File name too long (os error 36)"
  | noSpaceLeft => "No space left on device (os error 28)"
  | zeroInName => "file name contained an unexpected NUL byte"
  | notText => "stream did not contain valid UTF-8"
  | other description => description

/-- Files and channels, as steps in `m`. -/
structure Host (m : Type → Type) where
  isFile : String → m Bool
  /-- The one full path of a file. -/
  fullPath : String → m (Except FileError String)
  readText : String → m (Except FileError String)
  writeText : String → String → m (Except FileError Unit)
  /-- Write to the channel for results. -/
  print : String → m Unit
  /-- Write to the channel for messages. -/
  note : String → m Unit

end BlockScript.CommandLine
