import MultiDispatch.CommandLine

/-!
# The program

Reads what an invocation can need, performs it and writes what comes out.
-/

namespace MultiDispatch.CommandLine

def fileError : IO.Error → FileError
  | .noFileOrDirectory _ _ _ => .notFound
  | .inappropriateType _ code _ => if code = 21 then .directory else .notDirectory
  | error => .unreadable (toString error)

def readFile (path : Path) : IO (Path × Except FileError String) := do
  try
    return (path, .ok (← IO.FS.readFile path.text))
  catch error =>
    return (path, .error (fileError error))

def readFiles (paths : List Path) : IO Files := do
  let found ← paths.mapM readFile
  return ⟨fun path => (found.lookup path).getD (.error .notFound)⟩

def write (outcome : Outcome) : IO UInt32 := do
  (← IO.getStdout).putStr outcome.output
  for notice in outcome.notices do
    (← IO.getStderr).putStrLn notice.text
  return outcome.status.toUInt32

end MultiDispatch.CommandLine

open MultiDispatch.CommandLine in
def main (arguments : List String) : IO UInt32 := do
  match Invocation.parse arguments with
  | some invocation => write (invocation.perform (← readFiles invocation.paths))
  | none =>
      (← IO.getStderr).putStr programUsage
      return 2
