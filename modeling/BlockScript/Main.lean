import BlockScript.CommandLine.Run
import BlockScript.CommandLine.Usage

/-! # The program -/

namespace BlockScript.CommandLine

/-- The cause of a failure that the system reports by number, maybe with a minus sign. -/
def FileError.ofCode (code : UInt32) : Option FileError :=
  [(20, notADirectory), (21, isADirectory), (28, noSpaceLeft), (36, nameTooLong)].findSome?
    fun (known, error) => if code = known ∨ code = 0 - known then some error else none

/-- The cause of a failure that the system reports. -/
def FileError.ofSystem (error : IO.Error) : FileError :=
  match error with
  | .noFileOrDirectory .. => .notFound
  | .permissionDenied .. => .permissionDenied
  | .inappropriateType _ code _ | .resourceExhausted _ code _ | .invalidArgument _ code _ =>
      (FileError.ofCode code).getD (.other (toString error))
  | error => .other (toString error)

/-- The result of an action on a file, which may fail. -/
def tried {α : Type} (path : String) (action : IO α) : IO (Except FileError α) := do
  if path.toList.contains '\x00' then return .error .zeroInName
  match ← action.toBaseIO with
  | .ok a => return .ok a
  | .error error => return .error (FileError.ofSystem error)

/-- The system that the program runs on. -/
def systemHost : Host IO where
  isFile path := do
    match ← tried path (do return (← (← IO.FS.realPath path).metadata).type == .file) with
    | .ok answer => return answer
    | .error _ => return false
  fullPath path := tried path do return (← IO.FS.realPath path).toString
  readText path := do
    match ← tried path (IO.FS.readBinFile path) with
    | .ok bytes => return (String.fromUTF8? bytes).elim (.error .notText) .ok
    | .error error => return .error error
  writeText path text := tried path do
    IO.FS.withFile path .write fun file => do
      file.putStr text
      file.flush
  print text := do (← IO.getStdout).putStr text
  note text := do (← IO.getStderr).putStr text

end BlockScript.CommandLine

open BlockScript.CommandLine in
def main (args : List String) : IO UInt32 := do
  match Arguments.read args with
  | .error .helpWanted =>
      systemHost.print usage
      return 0
  | .error error =>
      systemHost.note ("error: " ++ error.message ++ "\n")
      return 2
  | .ok arguments =>
      match ← (run systemHost arguments).run with
      | .ok () => return 0
      | .error error =>
          systemHost.note error.report
          return 1
