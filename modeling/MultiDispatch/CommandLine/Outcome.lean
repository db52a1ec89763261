import MultiDispatch.CommandLine.Usage
import MultiDispatch.Manifest

/-!
# Outcomes

What a run writes, and whether it succeeds.  Planning writes the plan of each
type; checking writes the warnings of each and a summary.  A type that does not
compile is reported, and the types behind it are still looked at.
-/

namespace MultiDispatch.CommandLine

/-- What is written beside the output. -/
inductive Notice where
  | warning (text : String)
  | error (text : String)
  | report (code message : String) (help : Option String)
  deriving DecidableEq

namespace Notice

def text : Notice → String
  | .warning text => s!"warning: {text}"
  | .error text => s!"error: {text}"
  | .report code message help =>
      "\n".intercalate (code :: s!"  {message}" :: (help.map fun help => s!"  help: {help}").toList)

def ofManifestError (error : Manifest.Error) : Notice :=
  .report error.code error.message error.help?

def ofConfigurationError (error : ConfigurationError) : Notice :=
  .report error.code error.message error.help?

end Notice

structure Outcome where
  succeeded : Bool
  output : String
  notices : List Notice
  deriving DecidableEq

namespace Outcome

/-- The outcome that writes `output` and nothing else. -/
def ofOutput (output : String) : Outcome := ⟨true, output, []⟩

def ofFailure (notice : Notice) : Outcome := ⟨false, "", [notice]⟩

/-- One after the other. -/
instance : Append Outcome where
  append first second :=
    ⟨first.succeeded && second.succeeded, first.output ++ second.output,
      first.notices ++ second.notices⟩

def join (outcomes : List Outcome) : Outcome := outcomes.foldr (· ++ ·) (ofOutput "")

theorem succeeded_append (first second : Outcome) :
    (first ++ second).succeeded = (first.succeeded && second.succeeded) := rfl

@[simp]
theorem succeeded_join (outcomes : List Outcome) :
    (join outcomes).succeeded = outcomes.all Outcome.succeeded := by
  induction outcomes with
  | nil => rfl
  | cons first rest inductionHypothesis =>
      rw [List.all_cons, ← inductionHypothesis]
      rfl

/-- The exit status of a run; the status 2 is kept for refused arguments. -/
def status (outcome : Outcome) : Nat := if outcome.succeeded then 0 else 1

end Outcome

/-- What compiling one type comes to. -/
abbrev Result := Except ConfigurationError Compiled

namespace Result

def planned : Result → Outcome
  | .ok compiled => ⟨true, compiled.plan.text, compiled.diagnostics.map (.warning ·.text)⟩
  | .error error => .ofFailure (.ofConfigurationError error)

def warnings : Result → List String
  | .ok compiled => compiled.diagnostics.map fun diagnostic => (Notice.warning diagnostic.text).text
  | .error _ => []

def entryCount : Result → Nat
  | .ok compiled => compiled.plan.populated.length
  | .error _ => 0

def IsError (result : Result) : Prop := result.isOk = false

instance (result : Result) : Decidable result.IsError := by
  unfold IsError
  infer_instance

def checked (result : Result) : Outcome :=
  match result with
  | .ok _ => .ofOutput (lines result.warnings)
  | .error error => .ofFailure (.ofConfigurationError error)

end Result

def summary (manifest : Path) (results : List Result) : String :=
  let entries := (results.map Result.entryCount).foldr (· + ·) 0
  let errors := results.countP fun result => result.IsError
  let warnings := (results.flatMap Result.warnings).length
  s!"checked {results.length} types in {manifest.text}: {entries} dispatch entries, " ++
    s!"{errors} errors, {warnings} warnings"

def Command.outcome (manifest : Path) (results : List Result) : Command → Outcome
  | .plan => .join (results.map Result.planned)
  | .check => .join (results.map Result.checked) ++ .ofOutput (lines [summary manifest results])

end MultiDispatch.CommandLine
