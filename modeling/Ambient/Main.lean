import Ambient.Command.Run
/-!
# The command line program

The command on real files and streams.
-/

namespace Ambient.Command

/-- The reason of a failed operation, as the system words it. -/
def reasonOf : IO.Error → String
  | .noFileOrDirectory _ code details => withCode details code
  | .alreadyExists _ code details => withCode details code
  | .permissionDenied _ code details => withCode details code
  | .inappropriateType _ code details => withCode details code
  | .invalidArgument _ code details => withCode details code
  | .resourceExhausted _ code details => withCode details code
  | .noSuchThing _ code details => withCode details code
  | .otherError code details => withCode details code
  | e => toString e
where
  withCode (details : String) (code : UInt32) : String :=
    details ++ " (os error " ++ toString code ++ ")"

/-- Everything that a stream still holds. -/
partial def readAll (stream : IO.FS.Stream) (before : ByteArray) : IO ByteArray := do
  let more ← stream.read 65536
  if more.isEmpty then return before else readAll stream (before ++ more)

/-- An operation with its failure as a reason. -/
def attempt {α : Type} (operation : IO α) : IO (Except String α) := do
  match ← operation.toBaseIO with
  | .ok a => return .ok a
  | .error e => return .error (reasonOf e)

/-- Real files and streams. -/
def system : Host IO where
  read
    | some path => attempt (IO.FS.readBinFile path)
    | none => attempt do readAll (← IO.getStdin) .empty
  write path text := attempt do
    match path with
    | some path => IO.FS.writeFile path text
    | none => (← IO.getStdout).putStr text
  report text := do (← IO.getStderr).putStr text

end Ambient.Command

/-- Runs the command. -/
def main (arguments : List String) : IO UInt32 := do
  return (← Ambient.Command.run Ambient.Command.system arguments).toUInt32
