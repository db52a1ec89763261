import Mathlib.Data.List.Nodup
import Mathlib.Tactic.SplitIfs
import MultiDispatch.Registry

/-!
# The life of a registry

A run is any sequence of registrations and activations.  A call that is refused
changes nothing, a registration adds one type with new keys, and an activation
closes the registry to every further call.
-/

theorem List.Nodup.map_append_singleton {α β : Type*} {items : List α} {last : α} {key : α → β}
    (distinct : (items.map key).Nodup) (differs : ∀ item ∈ items, key item ≠ key last) :
    ((items ++ [last]).map key).Nodup := by
  rw [map_append, map_singleton, ← concat_eq_append]
  exact distinct.concat (by simpa using differs)

namespace MultiDispatch.Registry

/-- What a registry can be asked to do. -/
inductive Call {τ η : Type} (Receiver : τ → Type) (Failure : η → Type) where
  | register (added : Pending Receiver Failure)
  | activate

variable {τ η : Type} [DecidableEq τ] {Receiver : τ → Type} {Failure : η → Type}

def Call.perform :
    Call Receiver Failure → StateM (Registry Receiver Failure) (Except ConfigurationError Unit)
  | .register added => Registry.register added
  | .activate => Registry.activate

/-- The error of the call when it comes too late. -/
def Call.refusal : Call Receiver Failure → ConfigurationError
  | .register added => .registerAfterActivation added.spec.name
  | .activate => .alreadyActivated

/-- The results of the calls, one after the other, and what becomes of the registry. -/
def performAll (calls : List (Call Receiver Failure)) (registry : Registry Receiver Failure) :
    List (Except ConfigurationError Unit) × Registry Receiver Failure :=
  (calls.mapM Call.perform).run registry

theorem performAll_cons (call : Call Receiver Failure) (calls : List (Call Receiver Failure))
    (registry : Registry Receiver Failure) :
    performAll (call :: calls) registry =
      ((call.perform registry).1 :: (performAll calls (call.perform registry).2).1,
        (performAll calls (call.perform registry).2).2) := by
  rw [performAll, List.mapM_cons]
  rfl

/-- Some run from a new registry ends here. -/
def Reachable (options : CompileOptions) (registry : Registry Receiver Failure) : Prop :=
  ∃ calls, (performAll calls (new options)).2 = registry

section

variable {registry : Registry Receiver Failure}

/-- No registered type has the receiver or the name of the added one. -/
def Fresh (registry : Registry Receiver Failure) (added : Pending Receiver Failure) : Prop :=
  ∀ other ∈ registry.pending,
    other.receiver ≠ added.receiver ∧ other.spec.name ≠ added.spec.name

/-- The registry, activated with what was gathered. -/
def publish (registry : Registry Receiver Failure)
    (publication : Publication Receiver Failure) : Registry Receiver Failure where
  options := registry.options
  stage := .activated
  pending := []
  published := publication.dispatchers
  diagnostics := publication.diagnostics

/-- What a call does that is not refused. -/
inductive Advances (registry : Registry Receiver Failure) :
    Call Receiver Failure → Registry Receiver Failure → Prop where
  | register {added : Pending Receiver Failure} (unactivated : ¬registry.IsActivated)
      (fresh : registry.Fresh added) :
      Advances registry (.register added) { registry with pending := registry.pending ++ [added] }
  | activate {publication : Publication Receiver Failure} (unactivated : ¬registry.IsActivated)
      (gathers : Publication.gather registry.options registry.pending = .ok publication) :
      Advances registry .activate (registry.publish publication)

/-- All that a call can do: it is refused and changes nothing, or it advances the registry. -/
theorem perform_cases (call : Call Receiver Failure) (registry : Registry Receiver Failure) :
    (∃ fault, call.perform registry = (.error fault, registry)) ∨
      ∃ next, registry.Advances call next ∧ call.perform registry = (.ok (), next) := by
  cases call with
  | register added =>
      simp only [Call.perform, register]
      split_ifs with activated taken
      · exact .inl ⟨_, rfl⟩
      · exact .inl ⟨_, rfl⟩
      · refine .inr ⟨_, .register activated ?_, rfl⟩
        simpa [Fresh] using taken
  | activate =>
      simp only [Call.perform, activate]
      split_ifs with activated
      · exact .inl ⟨_, rfl⟩
      · cases gathers : Publication.gather registry.options registry.pending with
        | error fault => exact .inl ⟨fault, rfl⟩
        | ok publication => exact .inr ⟨_, .activate activated gathers, rfl⟩

theorem perform_of_error {call : Call Receiver Failure} {fault : ConfigurationError}
    (refused : (call.perform registry).1 = .error fault) :
    (call.perform registry).2 = registry := by
  rcases perform_cases call registry with ⟨_, unchanged⟩ | ⟨_, _, advanced⟩
  · rw [unchanged]
  · rw [advanced] at refused
    cases refused

theorem advances_of_ok {call : Call Receiver Failure} {next : Registry Receiver Failure}
    (succeeded : call.perform registry = (.ok (), next)) : registry.Advances call next := by
  rcases perform_cases call registry with ⟨_, refused⟩ | ⟨_, advances, advanced⟩
  · cases succeeded.symm.trans refused
  · cases succeeded.symm.trans advanced
    exact advances

theorem perform_of_isActivated (activated : registry.IsActivated) (call : Call Receiver Failure) :
    call.perform registry = (.error call.refusal, registry) := by
  cases call <;> exact if_pos activated

/-- An activated registry refuses whatever it is asked. -/
theorem performAll_of_isActivated (activated : registry.IsActivated)
    (calls : List (Call Receiver Failure)) :
    performAll calls registry = (calls.map fun call => .error call.refusal, registry) := by
  induction calls with
  | nil => rfl
  | cons call calls inductionHypothesis =>
      rw [performAll_cons, perform_of_isActivated activated, inductionHypothesis, List.map_cons]

theorem Advances.isActivated {next : Registry Receiver Failure}
    (advances : registry.Advances .activate next) : next.IsActivated := by
  cases advances
  rfl

/-- Once one activation has succeeded no other does. -/
theorem pairwise_not_both_activate (calls : List (Call Receiver Failure))
    (registry : Registry Receiver Failure) :
    (calls.zip (performAll calls registry).1).Pairwise fun earlier later =>
      ¬(earlier = (.activate, .ok ()) ∧ later = (.activate, .ok ())) := by
  induction calls generalizing registry with
  | nil => exact .nil
  | cons call calls inductionHypothesis =>
      rw [performAll_cons, List.zip_cons_cons, List.pairwise_cons]
      refine ⟨?_, inductionHypothesis _⟩
      -- Behind an activation that succeeds every result is a refusal.
      intro later inside both
      obtain ⟨first, second⟩ := both
      obtain ⟨rfl, succeeded⟩ := Prod.mk.inj first
      have activated := (advances_of_ok (Prod.ext succeeded rfl)).isActivated
      rw [performAll_of_isActivated activated, second] at inside
      obtain ⟨_, _, refused⟩ := List.mem_map.mp (List.of_mem_zip inside).2
      cases refused

end

section

variable {options : CompileOptions} {registry : Registry Receiver Failure}

/-- What every call preserves. -/
structure Sound (options : CompileOptions) (registry : Registry Receiver Failure) : Prop where
  options_eq : registry.options = options
  unpublished : ¬registry.IsActivated → registry.published = [] ∧ registry.diagnostics = []
  receivers_nodup : (registry.pending.map (·.receiver)).Nodup
  names_nodup : (registry.pending.map (·.spec.name)).Nodup

omit [DecidableEq τ] in
theorem sound_new (options : CompileOptions) :
    Sound options (new options : Registry Receiver Failure) where
  options_eq := rfl
  unpublished _ := ⟨rfl, rfl⟩
  receivers_nodup := .nil
  names_nodup := .nil

theorem Sound.perform (sound : Sound options registry) (call : Call Receiver Failure) :
    Sound options (call.perform registry).2 := by
  rcases perform_cases call registry with ⟨_, refused⟩ | ⟨_, advances, advanced⟩
  · rwa [refused]
  rw [advanced]
  cases advances with
  | register unactivated fresh =>
      exact {
        options_eq := sound.options_eq
        unpublished := sound.unpublished
        receivers_nodup :=
          sound.receivers_nodup.map_append_singleton fun other inside => (fresh other inside).1
        names_nodup :=
          sound.names_nodup.map_append_singleton fun other inside => (fresh other inside).2 }
  | activate unactivated gathers =>
      exact {
        options_eq := sound.options_eq
        unpublished := fun unactivated => absurd rfl unactivated
        receivers_nodup := .nil
        names_nodup := .nil }

theorem Sound.performAll (sound : Sound options registry) (calls : List (Call Receiver Failure)) :
    Sound options (performAll calls registry).2 := by
  induction calls generalizing registry with
  | nil => exact sound
  | cons call calls inductionHypothesis =>
      rw [performAll_cons]
      exact inductionHypothesis (sound.perform call)

theorem Reachable.sound (reachable : Reachable options registry) : Sound options registry := by
  obtain ⟨calls, rfl⟩ := reachable
  exact (sound_new options).performAll calls

theorem Sound.dispatcher?_eq_none [DecidableEq η] (sound : Sound options registry)
    (unactivated : ¬registry.IsActivated) (receiver : τ) (failure : η) :
    registry.dispatcher? receiver failure = none := by
  rw [dispatcher?, (sound.unpublished unactivated).1]
  rfl

/-- Nothing is published before the one activation that succeeds, nothing changes after
it, and a call that is refused changes nothing at any time. -/
theorem every_run_publishes_once [DecidableEq η] {calls : List (Call Receiver Failure)}
    {results : List (Except ConfigurationError Unit)}
    (ran : performAll calls (new options) = (results, registry)) :
    (¬registry.IsActivated →
      (∀ receiver failure, registry.dispatcher? receiver failure = none) ∧
        registry.diagnostics = []) ∧
    (registry.pending.map (·.receiver)).Nodup ∧
    (registry.pending.map (·.spec.name)).Nodup ∧
    (∀ (call : Call Receiver Failure) (fault : ConfigurationError),
      (call.perform registry).1 = .error fault → (call.perform registry).2 = registry) ∧
    ((calls.zip results).Pairwise fun earlier later =>
      ¬(earlier = (.activate, .ok ()) ∧ later = (.activate, .ok ()))) ∧
    (∀ activated, activate registry = (.ok (), activated) →
      activated.IsActivated ∧ ∀ later : List (Call Receiver Failure),
        performAll later activated = (later.map fun call => .error call.refusal, activated)) := by
  have sound : Sound options registry := Reachable.sound ⟨calls, congrArg Prod.snd ran⟩
  refine ⟨?_, sound.receivers_nodup, sound.names_nodup, ?_, ?_, ?_⟩
  · intro unactivated
    exact ⟨sound.dispatcher?_eq_none unactivated, (sound.unpublished unactivated).2⟩
  · intro call fault refused
    exact perform_of_error refused
  · have once := pairwise_not_both_activate calls (new options)
    rwa [ran] at once
  · intro next succeeded
    have performed : Call.activate.perform registry = (.ok (), next) := succeeded
    have activated := (advances_of_ok performed).isActivated
    exact ⟨activated, performAll_of_isActivated activated⟩

end

/-- Counters, whose errors are texts. -/
def tally : Pending (fun _ : Unit => Nat) (fun _ : Unit => String) where
  receiver := ()
  failure := ()
  spec := {
    name := "Tally"
    strategy := none
    methods := [.ofHandler "add" ⟨[.scalar (.signed .w32)], fun _ count =>
      (.ok (.string "added"), count + 1)⟩] }

theorem every_run_publishes_once_tally :
    ∃ registry activated,
      performAll [.register tally, .register tally] (new {}) =
        ([.ok (), .error (.duplicateType "Tally")], registry) ∧
      activate registry = (.ok (), activated) ∧
      registry.dispatcher? () () = none ∧ (activated.dispatcher? () ()).isSome ∧
      performAll [.activate, .register tally] activated =
        ([.error .alreadyActivated, .error (.registerAfterActivation "Tally")], activated) := by
  have ran : performAll [.register tally, .register tally] (new {}) =
    ([.ok (), .error (.duplicateType "Tally")], _) := rfl
  have succeeds :
      activate (performAll [.register tally, .register tally] (new {})).2 = (.ok (), _) := rfl
  obtain ⟨unpublished, _, _, _, _, closes⟩ := every_run_publishes_once ran
  obtain ⟨absent, _⟩ := unpublished (by decide)
  obtain ⟨_, closed⟩ := closes _ succeeds
  exact ⟨_, _, ran, succeeds, absent () (), rfl, closed _⟩

end MultiDispatch.Registry
