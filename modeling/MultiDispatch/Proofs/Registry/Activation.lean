import MultiDispatch.Proofs.Plan.Tables
import MultiDispatch.Proofs.Pointwise
import MultiDispatch.Proofs.Registry.Lifecycle

/-!
# What an activation does

An activation is the builds of the registered types, each on its own.  As no two
types share a receiver, no dispatcher takes the place of another.  A type that does
not build is never got over, for no call removes it.
-/

namespace MultiDispatch

variable {τ η : Type} {Receiver : τ → Type} {Failure : η → Type} {options : CompileOptions}

namespace Pending

variable {entry : Pending Receiver Failure}

theorem build_eq_ok_iff {built : Published Receiver Failure × List Diagnostic} :
    entry.build options = .ok built ↔
      ∃ dispatcher, entry.spec.build options = .ok (dispatcher, built.2) ∧
        built.1 = ⟨entry.receiver, entry.failure, dispatcher⟩ := by
  obtain ⟨published, diagnostics⟩ := built
  simp only [build, Except.bind_eq_ok_iff, pure, Except.pure, Except.ok.injEq, Prod.mk.injEq,
    Prod.exists]
  constructor
  · intro builds
    obtain ⟨dispatcher, _, builds, rfl, rfl⟩ := builds
    exact ⟨dispatcher, builds, rfl⟩
  · intro builds
    obtain ⟨dispatcher, builds, rfl⟩ := builds
    exact ⟨dispatcher, diagnostics, builds, rfl, rfl⟩

theorem exists_build_iff :
    (∃ built, entry.build options = .ok built) ↔
      ∃ built, entry.spec.build options = .ok built := by
  rw [build]
  cases entry.spec.build options <;> simp [bind, Except.bind, pure, Except.pure]

theorem build_eq_error_iff {fault : ConfigurationError} :
    entry.build options = .error fault ↔ entry.spec.build options = .error fault := by
  rw [build]
  cases entry.spec.build options <;> simp [bind, Except.bind, pure, Except.pure]

section

variable {pending : List (Pending Receiver Failure)}
  {built : List (Published Receiver Failure × List Diagnostic)}
  (builds : List.Forall₂ (fun entry made => entry.build options = .ok made) pending built)
include builds

theorem map_receiver_of_builds :
    (built.map Prod.fst).map (·.receiver) = pending.map (·.receiver) := by
  rw [← List.forall₂_eq_eq_eq, List.map_map, List.forall₂_map_left_iff,
    List.forall₂_map_right_iff]
  apply builds.flip.imp
  intro made entry builds
  obtain ⟨_, _, same⟩ := build_eq_ok_iff.mp builds
  rw [Function.comp_apply, same]

/-- What is found under two keys was built from the type that was registered under both. -/
theorem mem_dispatchers_iff {receiver : τ} {failure : η}
    {dispatcher : Dispatcher (Receiver receiver) (Failure failure)} :
    ⟨receiver, failure, dispatcher⟩ ∈ built.map Prod.fst ↔
      ∃ spec diagnostics, ⟨receiver, failure, spec⟩ ∈ pending ∧
        spec.build options = .ok (dispatcher, diagnostics) := by
  constructor
  · intro inside
    obtain ⟨made, isMade, same⟩ := List.mem_map.mp inside
    obtain ⟨⟨_, _, spec⟩, isPending, entryBuilds⟩ := builds.exists_of_mem_right isMade
    obtain ⟨_, specBuilds, isOwn⟩ := build_eq_ok_iff.mp entryBuilds
    cases same.symm.trans isOwn
    exact ⟨spec, made.2, isPending, specBuilds⟩
  · intro built
    obtain ⟨spec, diagnostics, isPending, specBuilds⟩ := built
    obtain ⟨made, isMade, entryBuilds⟩ := builds.flip.exists_of_mem_right isPending
    obtain ⟨_, alsoBuilds, isOwn⟩ := build_eq_ok_iff.mp entryBuilds
    cases specBuilds.symm.trans alsoBuilds
    exact List.mem_map.mpr ⟨made, isMade, isOwn⟩

end

/-- The error is that of the earliest of the types that does not build. -/
def Blocks (options : CompileOptions) (pending : List (Pending Receiver Failure))
    (fault : ConfigurationError) : Prop :=
  ∃ before entry after, pending = before ++ entry :: after ∧
    (∀ earlier ∈ before, ∃ built, earlier.spec.build options = .ok built) ∧
    entry.spec.build options = .error fault

theorem Blocks.append {pending : List (Pending Receiver Failure)} {fault : ConfigurationError}
    (blocks : Blocks options pending fault) (added : List (Pending Receiver Failure)) :
    Blocks options (pending ++ added) fault := by
  obtain ⟨before, entry, after, rfl, passed, fails⟩ := blocks
  exact ⟨before, entry, after ++ added, by simp, passed, fails⟩

end Pending

theorem Published.dispatcher?_eq_some_iff [DecidableEq τ] [DecidableEq η]
    {published : Published Receiver Failure} {receiver : τ} {failure : η}
    {dispatcher : Dispatcher (Receiver receiver) (Failure failure)} :
    published.dispatcher? receiver failure = some dispatcher ↔
      published = ⟨receiver, failure, dispatcher⟩ := by
  obtain ⟨ownReceiver, ownFailure, own⟩ := published
  constructor
  · intro found
    simp only [dispatcher?, Option.dite_none_right_eq_some] at found
    obtain ⟨⟨rfl, rfl⟩, same⟩ := found
    cases same
    rfl
  · intro same
    cases same
    simp [dispatcher?]

namespace Publication

variable [DecidableEq τ]

theorem add_of_forall_ne {publication : Publication Receiver Failure}
    {built : Published Receiver Failure × List Diagnostic}
    (fresh : ∀ earlier ∈ publication.dispatchers, earlier.receiver ≠ built.1.receiver) :
    publication.add built =
      ⟨publication.dispatchers ++ [built.1], publication.diagnostics ++ built.2⟩ := by
  rw [add, List.filter_eq_self.mpr]
  simpa using fresh

/-- Where the receivers differ, all dispatchers stay, in order. -/
theorem foldl_add (publication : Publication Receiver Failure)
    (built : List (Published Receiver Failure × List Diagnostic))
    (distinct : ((publication.dispatchers ++ built.map Prod.fst).map (·.receiver)).Nodup) :
    built.foldl add publication =
      ⟨publication.dispatchers ++ built.map Prod.fst,
        publication.diagnostics ++ (built.map Prod.snd).flatten⟩ := by
  induction built generalizing publication with
  | nil => simp
  | cons first built inductionHypothesis =>
      -- What was gathered so far keeps its place, for its receivers are not built again.
      have fresh : ∀ earlier ∈ publication.dispatchers, earlier.receiver ≠ first.1.receiver := by
        intro earlier inside
        rw [List.map_append, List.nodup_append] at distinct
        exact distinct.2.2 _ (List.mem_map_of_mem inside) _ List.mem_cons_self
      rw [List.foldl_cons, add_of_forall_ne fresh, inductionHypothesis]
      · simp
      · simpa using distinct

/-- With a receiver for each type, what is gathered is what the builds gave, in order. -/
theorem gather_eq_ok_iff {pending : List (Pending Receiver Failure)}
    (distinct : (pending.map (·.receiver)).Nodup) {publication : Publication Receiver Failure} :
    gather options pending = .ok publication ↔
      ∃ built, List.Forall₂ (fun entry made => entry.build options = .ok made) pending built ∧
        publication = ⟨built.map Prod.fst, (built.map Prod.snd).flatten⟩ := by
  rw [gather, List.foldlM_return, map_eq_pure_bind]
  simp only [Except.bind_eq_ok_iff, List.mapM_eq_ok_iff, pure, Except.pure, Except.ok.injEq]
  apply exists_congr
  intro built
  apply and_congr_right
  intro builds
  rw [← Pending.map_receiver_of_builds builds] at distinct
  rw [foldl_add ∅ built distinct, eq_comm]
  rfl

theorem exists_gather_iff {pending : List (Pending Receiver Failure)}
    (distinct : (pending.map (·.receiver)).Nodup) :
    (∃ publication, gather options pending = .ok publication) ↔
      ∀ entry ∈ pending, ∃ built, entry.spec.build options = .ok built := by
  simp only [← Pending.exists_build_iff, ← List.exists_forall₂_iff, gather_eq_ok_iff distinct]
  constructor
  · intro gathered
    obtain ⟨_, built, builds, _⟩ := gathered
    exact ⟨built, builds⟩
  · intro made
    obtain ⟨built, builds⟩ := made
    exact ⟨_, built, builds, rfl⟩

theorem gather_eq_error_iff {pending : List (Pending Receiver Failure)}
    {fault : ConfigurationError} :
    gather options pending = .error fault ↔ Pending.Blocks options pending fault := by
  have traversal : gather options pending = .error fault ↔
      pending.mapM (Pending.build options) = .error fault := by
    rw [gather, List.foldlM_return]
    cases pending.mapM (Pending.build options) <;> simp
  rw [traversal, List.mapM_eq_error_iff]
  simp only [Pending.exists_build_iff, Pending.build_eq_error_iff, Pending.Blocks]

end Publication

namespace Registry

variable [DecidableEq τ]

section

variable {registry : Registry Receiver Failure} {fault : ConfigurationError}

theorem dispatcher?_eq_some_iff [DecidableEq η]
    (distinct : (registry.published.map (·.receiver)).Nodup) {receiver : τ} {failure : η}
    {dispatcher : Dispatcher (Receiver receiver) (Failure failure)} :
    registry.dispatcher? receiver failure = some dispatcher ↔
      ⟨receiver, failure, dispatcher⟩ ∈ registry.published := by
  simp only [dispatcher?, Option.bind_eq_some_iff, List.find?_eq_some_iff_of_nodup_map distinct,
    Published.dispatcher?_eq_some_iff]
  constructor
  · intro found
    obtain ⟨_, ⟨inside, _⟩, rfl⟩ := found
    exact inside
  · intro inside
    exact ⟨_, ⟨inside, rfl⟩, rfl⟩

theorem activate_eq_ok_iff (unactivated : ¬registry.IsActivated)
    {next : Registry Receiver Failure} :
    activate registry = (.ok (), next) ↔
      ∃ publication, Publication.gather registry.options registry.pending = .ok publication ∧
        registry.publish publication = next := by
  rw [activate, if_neg unactivated]
  cases Publication.gather registry.options registry.pending with
  | error fault =>
      constructor
      · intro impossible
        cases impossible
      · intro gathered
        obtain ⟨_, impossible, _⟩ := gathered
        cases impossible
  | ok publication =>
      constructor
      · intro activates
        cases activates
        exact ⟨publication, rfl, rfl⟩
      · intro gathered
        obtain ⟨_, same, rfl⟩ := gathered
        cases same
        rfl

theorem activate_eq_error_iff (unactivated : ¬registry.IsActivated) :
    (activate registry).1 = .error fault ↔
      Pending.Blocks registry.options registry.pending fault := by
  rw [activate, if_neg unactivated, ← Publication.gather_eq_error_iff]
  cases Publication.gather registry.options registry.pending <;> simp

/-- Some registered type keeps the registry from ever being activated. -/
structure Stuck (registry : Registry Receiver Failure) (fault : ConfigurationError) : Prop where
  unactivated : ¬registry.IsActivated
  blocks : Pending.Blocks registry.options registry.pending fault

/-- A type that does not build stays the earliest one, whatever is registered behind it. -/
theorem Stuck.perform (stuck : registry.Stuck fault) (call : Call Receiver Failure) :
    (call.perform registry).2.Stuck fault := by
  rcases perform_cases call registry with ⟨_, refused⟩ | ⟨_, advances, advanced⟩
  · rwa [refused]
  · rw [advanced]
    cases advances with
    | register _ _ => exact ⟨stuck.unactivated, stuck.blocks.append _⟩
    | activate _ gathers =>
        cases gathers.symm.trans (Publication.gather_eq_error_iff.mpr stuck.blocks)

theorem Stuck.performAll (stuck : registry.Stuck fault) (calls : List (Call Receiver Failure)) :
    (performAll calls registry).2.Stuck fault ∧
      ∀ result, (.activate, result) ∈ calls.zip (performAll calls registry).1 →
        result = .error fault := by
  induction calls generalizing registry with
  | nil => exact ⟨stuck, by simp⟩
  | cons call calls inductionHypothesis =>
      obtain ⟨staysStuck, sameError⟩ := inductionHypothesis (stuck.perform call)
      rw [performAll_cons, List.zip_cons_cons]
      refine ⟨staysStuck, ?_⟩
      intro result inside
      rcases List.mem_cons.mp inside with first | later
      · cases first
        exact (activate_eq_error_iff stuck.unactivated).mpr stuck.blocks
      · exact sameError result later

end

/-- Activation is the builds of the registered types, each on its own, and the earliest
type that does not build is never got over. -/
theorem activation_is_separate_builds [DecidableEq η] {registry : Registry Receiver Failure}
    (reachable : Reachable options registry) (unactivated : ¬registry.IsActivated) :
    ((∃ activated, activate registry = (.ok (), activated)) ↔
      ∀ entry ∈ registry.pending, ∃ built, entry.spec.build options = .ok built) ∧
    (∀ activated, activate registry = (.ok (), activated) →
      (∀ receiver failure dispatcher,
        activated.dispatcher? receiver failure = some dispatcher ↔
          ∃ spec diagnostics, ⟨receiver, failure, spec⟩ ∈ registry.pending ∧
            spec.build options = .ok (dispatcher, diagnostics)) ∧
      ∃ parts, activated.diagnostics = parts.flatten ∧
        List.Forall₂ (fun entry part =>
          ∃ dispatcher, entry.spec.build options = .ok (dispatcher, part)) registry.pending parts) ∧
    (∀ fault, (activate registry).1 = .error fault ↔
      Pending.Blocks options registry.pending fault) ∧
    (∀ entry ∈ registry.pending, ∀ own, entry.spec.build options = .error own →
      ∃ fault, Pending.Blocks options registry.pending fault ∧
        ∀ later : List (Call Receiver Failure),
          ¬(performAll later registry).2.IsActivated ∧
          ∀ result, (.activate, result) ∈ later.zip (performAll later registry).1 →
            result = .error fault) := by
  have sound := reachable.sound
  obtain rfl := sound.options_eq
  have succeeds : (∃ activated, activate registry = (.ok (), activated)) ↔
      ∀ entry ∈ registry.pending, ∃ built, entry.spec.build registry.options = .ok built := by
    rw [← Publication.exists_gather_iff sound.receivers_nodup]
    simp only [activate_eq_ok_iff unactivated, exists_comm, exists_and_left, exists_eq', and_true]
  refine ⟨succeeds, ?publishes, fun fault => activate_eq_error_iff unactivated, ?blocked⟩
  case publishes =>
    intro activated activates
    obtain ⟨_, gathers, rfl⟩ := (activate_eq_ok_iff unactivated).mp activates
    obtain ⟨built, builds, rfl⟩ := (Publication.gather_eq_ok_iff sound.receivers_nodup).mp gathers
    have distinct := sound.receivers_nodup
    rw [← Pending.map_receiver_of_builds builds] at distinct
    refine ⟨?_, built.map Prod.snd, rfl, ?_⟩
    · intro receiver failure dispatcher
      rw [dispatcher?_eq_some_iff distinct]
      exact Pending.mem_dispatchers_iff builds
    · rw [List.forall₂_map_right_iff]
      apply builds.imp
      intro entry made entryBuilds
      obtain ⟨dispatcher, specBuilds, _⟩ := Pending.build_eq_ok_iff.mp entryBuilds
      exact ⟨dispatcher, specBuilds⟩
  case blocked =>
    intro entry isPending own fails
    cases outcome : (activate registry).1 with
    | ok _ =>
        obtain ⟨_, builds⟩ := succeeds.mp ⟨_, Prod.ext outcome rfl⟩ entry isPending
        cases fails.symm.trans builds
    | error fault =>
        have blocks := (activate_eq_error_iff unactivated).mp outcome
        refine ⟨fault, blocks, ?_⟩
        intro later
        obtain ⟨staysStuck, sameError⟩ := Stuck.performAll ⟨unactivated, blocks⟩ later
        exact ⟨staysStuck.unactivated, sameError⟩

/-- A counter, which does not build with more than one copy of its method. -/
def counter (receiver : Bool) (name : String) (copies : Nat) :
    Pending (fun _ : Bool => Nat) (fun _ : Unit => String) where
  receiver
  failure := ()
  spec := {
    name
    strategy := none
    methods := List.replicate copies (.ofHandler "add" ⟨[.scalar (.signed .w32)], fun _ count =>
      (.ok (.string name), count + 1)⟩) }

theorem activation_is_separate_builds_counter :
    (∃ registry activated dispatcher diagnostics,
      performAll [.register (counter true "Left" 1), .register (counter false "Right" 1)] (new {}) =
        ([.ok (), .ok ()], registry) ∧
      activate registry = (.ok (), activated) ∧
      (counter false "Right" 1).spec.build {} = .ok (dispatcher, diagnostics) ∧
      activated.dispatcher? false () = some dispatcher) ∧
    ∃ registry fault,
      performAll [.register (counter true "Left" 2)] (new {}) = ([.ok ()], registry) ∧
      (activate registry).1 = .error fault ∧
      ∀ later, ¬(performAll later registry).2.IsActivated := by
  constructor
  · have ran : performAll [.register (counter true "Left" 1), .register (counter false "Right" 1)]
      (new {}) = ([.ok (), .ok ()], _) := rfl
    have builds : (counter false "Right" 1).spec.build {} = .ok (_, _) := rfl
    obtain ⟨_, publishes, _, _⟩ :=
      activation_is_separate_builds ⟨_, congrArg Prod.snd ran⟩ (by decide)
    obtain ⟨found, _⟩ := publishes _ rfl
    exact ⟨_, _, _, _, ran, rfl, builds,
      (found false () _).mpr ⟨_, _, List.mem_cons_of_mem _ List.mem_cons_self, builds⟩⟩
  · have ran : performAll [.register (counter true "Left" 2)] (new {}) = ([.ok ()], _) := rfl
    obtain ⟨_, _, failsAs, blocked⟩ :=
      activation_is_separate_builds ⟨_, congrArg Prod.snd ran⟩ (by decide)
    obtain ⟨fault, blocks, stuck⟩ := blocked _ List.mem_cons_self _ rfl
    exact ⟨_, fault, ran, (failsAs fault).mpr blocks, fun later => (stuck later).1⟩

end Registry

end MultiDispatch
