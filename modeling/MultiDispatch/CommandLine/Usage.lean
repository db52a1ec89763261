import MultiDispatch.CommandLine.Request

/-!
# Usage

What the program says about itself.
-/

namespace MultiDispatch.CommandLine

def lines (texts : List String) : String := String.join (texts.map (· ++ "\n"))

def Command.name : Command → String
  | .plan => "plan"
  | .check => "check"

@[simp]
theorem Command.ofName?_name (command : Command) : Command.ofName? command.name = some command := by
  cases command <;> rfl

def Command.about : Command → String
  | .plan => "Print the dispatch tables, call-sites and arity index of every type"
  | .check => "Report excluded methods, expansion warnings and build errors"

def versionText : String := lines ["cli 0.1.0"]

def helpAbout : String := "Print this message or the help of the given subcommand(s)"

def programUsage : String := lines [
  "Usage: send-cli <COMMAND>",
  "",
  "Commands:",
  s!"  plan   {Command.plan.about}",
  s!"  check  {Command.check.about}",
  s!"  help   {helpAbout}",
  "",
  "Options:",
  "  -h, --help     Print help",
  "  -V, --version  Print version"]

def Command.usage (command : Command) : String := lines [
  command.about,
  "",
  s!"Usage: send-cli {command.name} [OPTIONS] <MANIFEST>",
  "",
  "Arguments:",
  "  <MANIFEST>  Path to the signature manifest",
  "",
  "Options:",
  "      --config <CONFIG>",
  "          Path to send.toml (default: nearest one above the manifest)",
  "      --strategy <STRATEGY>",
  "          Default call-site strategy: `closure` or `value-object`",
  "      --hide-skipped",
  "          Hide skip-marked methods from the arity index",
  "      --combination-warning <COMBINATION_WARNING>",
  "          Report signatures expanding to more combinations than this",
  "      --max-combinations <MAX_COMBINATIONS>",
  "          Reject signatures expanding to more combinations than this",
  "      --type <NAME>",
  "          Only process the named type",
  "  -h, --help",
  "          Print help"]

def helpUsage : String := lines [
  helpAbout,
  "",
  "Usage: send-cli help [COMMAND]...",
  "",
  "Arguments:",
  "  [COMMAND]...  Print help for the subcommand(s)"]

def Topic.usage : Topic → String
  | .program => programUsage
  | .command topic => topic.usage
  | .help => helpUsage

end MultiDispatch.CommandLine
