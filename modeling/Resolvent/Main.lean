import Resolvent.Command.Execute

/-!
# The command line program

Reads the source that a command line asks for, runs the command, and writes what it leaves.
-/

namespace Resolvent.Command

/-- Why a read failed. -/
def unreadable : IO.Error → Unreadable
  | .noFileOrDirectory _ _ _ => .missing
  | .permissionDenied _ _ _ => .denied
  | .inappropriateType _ 21 _ => .directory
  | .inappropriateType _ _ _ => .notDirectory
  | e => .other (toString e)

/-- Reads a stream to its end. -/
partial def readAll (stream : IO.FS.Stream) (acc : String) : IO String := do
  let line ← stream.getLine
  if line.isEmpty then return acc else readAll stream (acc ++ line)

/-- What the source of an invocation holds. -/
def readSource : Invocation → IO (Except Unreadable String)
  | .resolve (.file path) _ _ _ | .eval (.file path) _ => do
    try return .ok (← IO.FS.readFile path)
    catch e => return .error (unreadable e)
  | .resolve .stdin _ _ _ | .eval .stdin _ => do
    try return .ok (← readAll (← IO.getStdin) "")
    catch e => return .error (unreadable e)
  | _ => return .ok ""

end Resolvent.Command

open Resolvent.Command

def main (args : List String) : IO UInt32 := do
  let outcome ← match readArguments args with
    | none => pure usageError
    | some invocation => do pure (execute invocation (← readSource invocation))
  (← IO.getStdout).putStr outcome.stdout
  (← IO.getStderr).putStr outcome.stderr
  return outcome.code.toUInt32
