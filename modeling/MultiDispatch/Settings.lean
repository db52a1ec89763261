import MultiDispatch.Files
import MultiDispatch.Plan

/-!
# Settings

What a settings file says about compilation, and what is given in place of it.
Every setting may be left out.  A manifest is compiled under the settings file
that is nearest above it, as far as its path is written.  How a settings file is
written is left to the reader that it is loaded with.
-/

namespace MultiDispatch

structure Settings where
  /-- The word as it is written, which need not name a strategy. -/
  strategy : Option String := none
  introspectSkipped : Option Bool := none
  combinationWarning : Option Nat := none
  maxCombinations : Option Nat := none
  deriving DecidableEq

/-- Each of these goes before what the settings say. -/
structure Overrides where
  strategy : Option Strategy := none
  hideSkipped : Bool := false
  combinationWarning : Option Nat := none
  maxCombinations : Option Nat := none
  deriving DecidableEq

namespace Settings

/-- What the text of a settings file says, unless it is malformed. -/
abbrev Reader := String → Option Settings

inductive Error where
  | unreadable (path : Path)
  | malformed (path : Path)
  | unknownStrategy (word : String)
  deriving DecidableEq

namespace Error

def message : Error → String
  | .unreadable path => s!"could not read {path.text}"
  | .malformed path => s!"invalid {path.text}"
  | .unknownStrategy word => s!"unknown strategy `{word}`"

def help? : Error → Option String
  | .unknownStrategy _ => some "use `closure` or `value-object`"
  | .unreadable _ | .malformed _ => none

end Error

/-- The strategy for methods without one. -/
def strategy? (settings : Settings) : Except Error (Option Strategy) :=
  match settings.strategy with
  | none => .ok none
  | some word =>
      match Strategy.ofText? word with
      | some strategy => .ok (some strategy)
      | none => .error (.unknownStrategy word)

/-- What compilation goes by, of the overrides, the settings and the defaults in
this order.  A word that names no strategy is an error even when an override takes
its place. -/
def compileOptions (settings : Settings) (overrides : Overrides) : Except Error CompileOptions :=
  let default : CompileOptions := {}
  settings.strategy?.map fun strategy => {
    defaultStrategy := (overrides.strategy.or strategy).getD default.defaultStrategy
    introspectSkipped :=
      !overrides.hideSkipped && settings.introspectSkipped.getD default.introspectSkipped
    combinationWarning :=
      (overrides.combinationWarning.or settings.combinationWarning).getD default.combinationWarning
    maxCombinations :=
      (overrides.maxCombinations.or settings.maxCombinations).or default.maxCombinations }

@[simp]
theorem compileOptions_default : compileOptions {} {} = .ok {} := rfl

theorem defaultStrategy_of_override {settings : Settings} {overrides : Overrides}
    {options : CompileOptions} {strategy : Strategy} (override : overrides.strategy = some strategy)
    (configures : settings.compileOptions overrides = .ok options) :
    options.defaultStrategy = strategy := by
  unfold compileOptions at configures
  cases named : settings.strategy? with
  | error _ =>
      rw [named] at configures
      cases configures
  | ok _ =>
      rw [named] at configures
      cases configures
      simp [override]

def fileName : String := "send.toml"

/-- Where a settings file is looked for, the nearest place first. -/
def candidates (manifest : Path) : List Path := manifest.ancestors.map (Path.join · fileName)

/-- The settings file for a manifest, unless one is named. -/
def find? (files : Files) (manifest : Path) : Option Path :=
  (candidates manifest).find? fun candidate => files.Contains candidate

def load (read : Reader) (files : Files) (path : Path) : Except Error Settings :=
  match files.read path with
  | .error _ => .error (.unreadable path)
  | .ok source =>
      match read source with
      | some settings => .ok settings
      | none => .error (.malformed path)

/-- The settings for a manifest; a file that is named has to be there. -/
def forManifest (read : Reader) (files : Files) (manifest : Path) (named : Option Path) :
    Except Error Settings :=
  match named.or (find? files manifest) with
  | some path => load read files path
  | none => .ok {}

end Settings

end MultiDispatch
