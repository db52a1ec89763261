import MultiDispatch.CommandLine.Run
import MultiDispatch.Settings.Document

/-!
# The command line

What comes of an invocation.  Settings files are read as flat TOML documents.
-/

namespace MultiDispatch.CommandLine.Invocation

def perform (files : Files) : Invocation → Outcome
  | .run command request => request.run Settings.parse files command
  | .help topic => .ofOutput topic.usage
  | .version => .ofOutput versionText

def paths : Invocation → List Path
  | .run _ request => request.paths
  | .help _ | .version => []

end MultiDispatch.CommandLine.Invocation
