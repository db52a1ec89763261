import MultiDispatch.Settings
import MultiDispatch.Text.Digits

/-!
# Requests

What the arguments of a command line ask for.  Arguments are read from left to
right, and each is given at most once; arguments that ask for nothing are refused
as a whole.
-/

namespace MultiDispatch.CommandLine

inductive Command where
  | plan
  | check
  deriving DecidableEq

def Command.ofName? : String → Option Command
  | "plan" => some .plan
  | "check" => some .check
  | _ => none

structure Request where
  manifest : Path
  config : Option Path := none
  overrides : Overrides := {}
  /-- The one type to look at. -/
  only : Option String := none
  deriving DecidableEq

/-- What there is help on. -/
inductive Topic where
  | program
  | command (command : Command)
  | help
  deriving DecidableEq

inductive Invocation where
  | run (command : Command) (request : Request)
  | help (topic : Topic)
  | version
  deriving DecidableEq

/-- The options that have a value. -/
inductive Key where
  | config
  | strategy
  | combinationWarning
  | maxCombinations
  | only
  deriving DecidableEq

def Key.ofName? : String → Option Key
  | "config" => some .config
  | "strategy" => some .strategy
  | "combination-warning" => some .combinationWarning
  | "max-combinations" => some .maxCombinations
  | "type" => some .only
  | _ => none

inductive Argument where
  | operand (text : String)
  /-- Behind it there are only operands. -/
  | separator
  | help
  | hideSkipped
  | option (key : Key) (attached : Option String)
  | unknown
  deriving DecidableEq

namespace Argument

/-- The name of an option and the value attached behind the first `=`. -/
def splitValue (written : List Char) : String × Option String :=
  match written.span (· ≠ '=') with
  | (name, _ :: value) => (String.ofList name, some (String.ofList value))
  | (name, []) => (String.ofList name, none)

/-- An option that is written with two dashes. -/
def ofOption (name : String) (attached : Option String) : Argument :=
  match name, attached with
  | "help", none => .help
  | "hide-skipped", none => .hideSkipped
  | _, _ =>
      match Key.ofName? name with
      | some key => .option key attached
      | none => .unknown

def ofText (text : String) : Argument :=
  match text.toList with
  | ['-', '-'] => .separator
  | '-' :: '-' :: written =>
      let (name, attached) := splitValue written
      ofOption name attached
  | '-' :: 'h' :: _ => .help
  | '-' :: _ :: _ => .unknown
  | _ => .operand text

end Argument

/-- A count in decimal digits, of 64 bits. -/
def count? (text : String) : Option Nat := do
  let digits ← (match text.toList with
    | '+' :: digits => digits
    | digits => digits).mapM (Text.digit? 10)
  let count := Text.ofDigits 10 digits
  if digits ≠ [] ∧ count < UInt64.size then some count else none

/-- What the arguments have asked for so far. -/
structure Draft where
  manifest : Option Path := none
  config : Option Path := none
  overrides : Overrides := {}
  only : Option String := none

namespace Draft

/-- Fills in what has been absent. -/
def fill {α : Type} (present : Option α) (value : Option α) (change : Option α → Draft) :
    Option Draft :=
  match present, value with
  | none, some value => some (change (some value))
  | _, _ => none

def path? (text : String) : Option Path :=
  if text = "" then none else some (.ofText text)

def operand (draft : Draft) (text : String) : Option Draft :=
  fill draft.manifest (path? text) fun manifest => { draft with manifest }

def hideSkipped (draft : Draft) : Option Draft :=
  if draft.overrides.hideSkipped then none
  else some { draft with overrides := { draft.overrides with hideSkipped := true } }

def option (draft : Draft) (key : Key) (text : String) : Option Draft :=
  let overrides := draft.overrides
  match key with
  | .config => fill draft.config (path? text) fun config => { draft with config }
  | .strategy => fill overrides.strategy (Strategy.ofText? text) fun strategy =>
      { draft with overrides := { overrides with strategy } }
  | .combinationWarning => fill overrides.combinationWarning (count? text) fun combinationWarning =>
      { draft with overrides := { overrides with combinationWarning } }
  | .maxCombinations => fill overrides.maxCombinations (count? text) fun maxCombinations =>
      { draft with overrides := { overrides with maxCombinations } }
  | .only => fill draft.only (some text) fun only => { draft with only }

def request? (draft : Draft) : Option Request :=
  draft.manifest.map fun manifest =>
    { manifest, config := draft.config, overrides := draft.overrides, only := draft.only }

/-- Reads the arguments of a command.  A value that stands on its own is an operand
by its form. -/
def read (command : Command) (draft : Draft) : List String → Option Invocation
  | [] => draft.request?.map (.run command)
  | argument :: rest =>
      match Argument.ofText argument with
      | .operand text => (draft.operand text).bind fun draft => read command draft rest
      | .separator => do
          let draft ← rest.foldlM operand draft
          draft.request?.map (.run command)
      | .help => some (.help (.command command))
      | .hideSkipped => draft.hideSkipped.bind fun draft => read command draft rest
      | .option key (some text) =>
          (draft.option key text).bind fun draft => read command draft rest
      | .option key none =>
          match rest with
          | [] => none
          | value :: rest =>
              match Argument.ofText value with
              | .operand text => (draft.option key text).bind fun draft => read command draft rest
              | _ => none
      | .unknown => none

end Draft

/-- At most one word names the topic. -/
def Topic.parse : List String → Option Topic
  | [] => some .program
  | ["help"] => some .help
  | [name] => (Command.ofName? name).map .command
  | _ => none

/-- The arguments of the program begin with a command. -/
def Invocation.parse : List String → Option Invocation
  | [] => none
  | "help" :: topic => (Topic.parse topic).map .help
  | first :: rest =>
      match Command.ofName? first with
      | some command => Draft.read command {} rest
      | none =>
          match Argument.ofText first, first.toList with
          | .help, _ => some (.help .program)
          | _, '-' :: 'V' :: _ => some .version
          | _, _ => if first = "--version" then some .version else none

end MultiDispatch.CommandLine
