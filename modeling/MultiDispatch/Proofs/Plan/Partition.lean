import Mathlib.Data.List.TakeWhile
import MultiDispatch.Proofs.Registry.Specification

/-!
# What a declaration contributes

Each declared method is retained or reported, one after the other.  Which of the two is
said here by the places of its parameters: it is retained when all are typed and the
defaults begin at some place and go on to the end, and that place is then the least
number of arguments.  Otherwise the report names the first parameter that stands in the
way.
-/

namespace MultiDispatch

/-- The parameters before the place are required, and all others have defaults. -/
structure DefaultsFrom (parameters : List Parameter) (first : Nat) : Prop where
  within : first ≤ parameters.length
  required : ∀ parameter ∈ parameters.take first, parameter.hasDefault = false
  optional : ∀ parameter ∈ parameters.drop first, parameter.hasDefault = true

theorem defaultsFrom_append {needed defaulted : List Parameter}
    (required : ∀ parameter ∈ needed, parameter.hasDefault = false)
    (optional : ∀ parameter ∈ defaulted, parameter.hasDefault = true) :
    DefaultsFrom (needed ++ defaulted) needed.length where
  within := by simp
  required := by simpa using required
  optional := by simpa using optional

namespace DefaultsFrom

variable {parameters : List Parameter} {first : Nat}

/-- To count the required parameters is to find the first default. -/
theorem countP_eq (defaults : DefaultsFrom parameters first) :
    (parameters.countP fun parameter => !parameter.hasDefault) = first := by
  have before : (parameters.take first).countP (fun parameter => !parameter.hasDefault) = first := by
    calc
      _ = (parameters.take first).length := by
        rw [List.countP_eq_length]
        intro parameter inside
        simp [defaults.required parameter inside]
      _ = first := List.length_take_of_le defaults.within
  have behind : (parameters.drop first).countP (fun parameter => !parameter.hasDefault) = 0 := by
    rw [List.countP_eq_zero]
    intro parameter inside
    simp [defaults.optional parameter inside]
  rw [← List.take_append_drop first parameters, List.countP_append, before, behind, Nat.add_zero]

theorem pairwise (defaults : DefaultsFrom parameters first) :
    parameters.Pairwise fun earlier later => earlier.hasDefault → later.hasDefault := by
  rw [← List.take_append_drop first parameters, List.pairwise_append]
  refine ⟨List.pairwise_of_forall_mem_list ?_, List.pairwise_of_forall_mem_list ?_, ?_⟩
  · intro earlier inside _ _ default
    rw [defaults.required earlier inside] at default
    cases default
  · intro _ _ later inside _
    exact defaults.optional later inside
  · intro _ _ later inside _
    exact defaults.optional later inside

/-- A required parameter behind a default breaks the order. -/
theorem not_pairwise_append (defaults : DefaultsFrom parameters first)
    (misplaced : first < parameters.length) {parameter : Parameter}
    (required : parameter.hasDefault = false) (after : List Parameter) :
    ¬(parameters ++ parameter :: after).Pairwise fun earlier later =>
      earlier.hasDefault → later.hasDefault := by
  intro inOrder
  have isDefault : parameters[first].hasDefault = true := by
    apply defaults.optional
    rw [List.drop_eq_getElem_cons misplaced]
    exact List.mem_cons_self
  have isDefaultToo := (List.pairwise_append.mp inOrder).2.2 _ (List.getElem_mem misplaced)
    parameter List.mem_cons_self isDefault
  rw [required] at isDefaultToo
  cases isDefaultToo

end DefaultsFrom

namespace MethodDecl

variable {method : MethodDecl}

theorem hasDefault_of_mem_takeWhile {parameters : List Parameter} {parameter : Parameter}
    (inside : parameter ∈ parameters.takeWhile fun parameter => !parameter.hasDefault) :
    parameter.hasDefault = false := by
  simpa using List.mem_takeWhile_imp inside

theorem exists_defaultsFrom (noneMisplaced : method.requiredAfterDefault? = none) :
    ∃ first, DefaultsFrom method.parameters first := by
  rw [requiredAfterDefault?, List.find?_eq_none] at noneMisplaced
  rw [← List.takeWhile_append_dropWhile (p := fun parameter => !parameter.hasDefault)
    (l := method.parameters)]
  refine ⟨_, defaultsFrom_append ?_ ?_⟩
  · intro parameter inside
    exact hasDefault_of_mem_takeWhile inside
  · intro parameter inside
    simpa using noneMisplaced parameter inside

/-- A misplaced default stands before the first required parameter behind it. -/
theorem exists_of_requiredAfterDefault? {parameter : Parameter}
    (misplaced : method.requiredAfterDefault? = some parameter) :
    ∃ before after first, method.parameters = before ++ parameter :: after ∧
      DefaultsFrom before first ∧ first < before.length ∧ parameter.hasDefault = false := by
  rw [requiredAfterDefault?, List.find?_eq_some_iff_append] at misplaced
  rcases misplaced with ⟨required, between, after, split, optional⟩
  refine ⟨(method.parameters.takeWhile fun parameter => !parameter.hasDefault) ++ between, after,
    _, ?_, defaultsFrom_append ?_ ?_, ?_, ?_⟩
  · rw [List.append_assoc, ← split, List.takeWhile_append_dropWhile]
  · intro parameter inside
    exact hasDefault_of_mem_takeWhile inside
  · intro parameter inside
    simpa using optional parameter inside
  · -- The rest begins with a default, so the required parameter is not its first.
    cases between with
    | nil =>
        have begins := List.head?_dropWhile_not (fun parameter : Parameter => !parameter.hasDefault)
          method.parameters
        rw [split] at begins
        simp_all
    | cons _ _ => simp
  · simpa using required

/-- All parameters are typed, and those with defaults come last. -/
def IsDispatchable (method : MethodDecl) : Prop :=
  (∀ parameter ∈ method.parameters, parameter.constraint ≠ none) ∧
    ∃ first, DefaultsFrom method.parameters first

end MethodDecl

/-- What the method at the place comes to: it is retained with a constraint for each
parameter and the first default as its least number of arguments, or reported with the
first untyped parameter, or else with the first required one behind a default. -/
inductive Contributes (owner : String) (method : MethodDecl) (place : Nat) :
    Retained ⊕ Diagnostic → Prop where
  | retained {signature : Signature} {first : Nat}
      (typed : method.parameters.map (·.constraint) = signature.constraints.map some)
      (defaults : DefaultsFrom method.parameters first)
      (arity : method.arity = ⟨first, method.parameters.length⟩) :
      Contributes owner method place (.inl ⟨method, signature, place⟩)
  | untyped {before after : List Parameter} {parameter : Parameter}
      (split : method.parameters = before ++ parameter :: after)
      (typedBefore : ∀ earlier ∈ before, earlier.constraint ≠ none)
      (untyped : parameter.constraint = none) :
      Contributes owner method place
        (.inr ⟨owner, method.name, .untypedParameter parameter.name⟩)
  | interior {before after : List Parameter} {parameter : Parameter} {first : Nat}
      (typed : ∀ parameter ∈ method.parameters, parameter.constraint ≠ none)
      (split : method.parameters = before ++ parameter :: after)
      (defaults : DefaultsFrom before first) (misplaced : first < before.length)
      (required : parameter.hasDefault = false) :
      Contributes owner method place
        (.inr ⟨owner, method.name, .interiorDefault parameter.name⟩)

namespace Contributes

variable {owner : String} {method : MethodDecl} {place : Nat}
  {contribution : Retained ⊕ Diagnostic}

theorem isLeft_iff (contributes : Contributes owner method place contribution) :
    contribution.isLeft ↔ method.IsDispatchable := by
  cases contributes with
  | @retained signature first typed defaults _ =>
      refine iff_of_true rfl ⟨?_, first, defaults⟩
      intro parameter inside
      have present : parameter.constraint ∈ signature.constraints.map some :=
        typed ▸ List.mem_map_of_mem inside
      rcases List.mem_map.mp present with ⟨constraint, _, isConstraint⟩
      simp [← isConstraint]
  | @untyped before after parameter split _ untyped =>
      refine iff_of_false Bool.false_ne_true ?_
      intro dispatchable
      exact dispatchable.1 parameter (by simp [split]) untyped
  | @interior before after parameter first _ split defaults misplaced required =>
      refine iff_of_false Bool.false_ne_true ?_
      intro dispatchable
      rcases dispatchable.2 with ⟨_, defaultsLast⟩
      have inOrder := defaultsLast.pairwise
      rw [split] at inOrder
      exact defaults.not_pairwise_append misplaced required after inOrder

end Contributes

/-- The two scans of an extraction find one and the same contribution. -/
theorem exists_contributes (owner : String) (method : MethodDecl) (place : Nat) :
    ∃ contribution, Contributes owner method place contribution ∧
      Extraction.retain? method place = contribution.getLeft? ∧
      method.exclusion?.map (⟨owner, method.name, ·⟩) = contribution.getRight? := by
  cases isUntyped : method.firstUntyped? with
  | some parameter =>
      have excluded : method.exclusion? = some (.untypedParameter parameter.name) := by
        simp [MethodDecl.exclusion?, isUntyped]
      rw [MethodDecl.firstUntyped?, List.find?_eq_some_iff_append] at isUntyped
      rcases isUntyped with ⟨untyped, before, after, split, typedBefore⟩
      refine ⟨_, .untyped split ?_ (Option.isNone_iff_eq_none.mp untyped), ?_, ?_⟩
      · intro earlier inside
        simpa [Option.ne_none_iff_isSome] using typedBefore earlier inside
      · simp [Extraction.retain?, excluded]
      · simp [excluded]
  | none =>
      have typed := MethodDecl.firstUntyped?_eq_none_iff.mp isUntyped
      cases isInterior : method.requiredAfterDefault? with
      | some parameter =>
          have excluded : method.exclusion? = some (.interiorDefault parameter.name) := by
            simp [MethodDecl.exclusion?, isUntyped, isInterior]
          rcases MethodDecl.exists_of_requiredAfterDefault? isInterior with
            ⟨before, after, first, split, defaults, misplaced, required⟩
          refine ⟨_, .interior typed split defaults misplaced required, ?_, ?_⟩
          · simp [Extraction.retain?, excluded]
          · simp [excluded]
      | none =>
          have dispatchable : method.exclusion? = none := by
            simp [MethodDecl.exclusion?, isUntyped, isInterior]
          rcases MethodDecl.exists_signature? dispatchable with ⟨signature, hasSignature⟩
          rcases MethodDecl.exists_defaultsFrom isInterior with ⟨first, defaults⟩
          have arity : method.arity = ⟨first, method.parameters.length⟩ := by
            rw [MethodDecl.arity, defaults.countP_eq]
          refine ⟨_, .retained (MethodDecl.signature?_eq_some_iff.mp hasSignature) defaults arity,
            ?_, ?_⟩
          · simp [Extraction.retain?, dispatchable, hasSignature]
          · simp [dispatchable]

/-- A method with a handler is reported only for a parameter without a restriction. -/
theorem Contributes.of_declared {ρ ε : Type} {spec : MethodSpec ρ ε} {owner declaring : String}
    {place : Nat} {contribution : Retained ⊕ Diagnostic}
    (contributes : Contributes owner (spec.declared declaring) place contribution) :
    contribution.isLeft ∨ ∃ parameter ∈ spec.parameters, parameter.constraint = none ∧
      contribution = .inr ⟨owner, spec.name, .untypedParameter parameter.name⟩ := by
  cases contributes with
  | retained => exact .inl rfl
  | @untyped before after parameter split _ untyped =>
      have inside : parameter ∈ (spec.declared declaring).parameters := by simp [split]
      exact .inr ⟨parameter, inside, untyped, rfl⟩
  | @interior before after parameter first _ split defaults misplaced required =>
      have inOrder : (spec.declared declaring).parameters.Pairwise _ :=
        spec.pairwise_hasDefault_parameters
      rw [split] at inOrder
      exact absurd inOrder (defaults.not_pairwise_append misplaced required after)

/-- The retained methods and the reports are what the declared methods come to, one for
each and in their order.  A method is retained exactly when it is dispatchable, and one
with a handler fails to be only for a parameter without a restriction. -/
theorem extraction_partitions_declaration (decl : TypeDecl) :
    (∃ contributions : List (Retained ⊕ Diagnostic),
      List.Forall₂
        (fun placed contribution => Contributes decl.name placed.1 placed.2 contribution ∧
          (contribution.isLeft ↔ placed.1.IsDispatchable))
        decl.methods.zipIdx contributions ∧
      (Extraction.ofDecl decl).methods = contributions.filterMap Sum.getLeft? ∧
      (Extraction.ofDecl decl).diagnostics = contributions.filterMap Sum.getRight?) ∧
    ∀ (ρ ε : Type) (spec : MethodSpec ρ ε) (owner : String) (place : Nat)
      (contribution : Retained ⊕ Diagnostic),
      Contributes decl.name (spec.declared owner) place contribution →
        contribution.isLeft ∨ ∃ parameter ∈ spec.parameters, parameter.constraint = none ∧
          contribution = .inr ⟨decl.name, spec.name, .untypedParameter parameter.name⟩ := by
  constructor
  · have eachContributes : ∀ placed ∈ decl.methods.zipIdx, ∃ contribution,
        Contributes decl.name placed.1 placed.2 contribution ∧
          Extraction.retain? placed.1 placed.2 = contribution.getLeft? ∧
          placed.1.exclusion?.map (⟨decl.name, placed.1.name, ·⟩) = contribution.getRight? := by
      intro placed _
      exact exists_contributes decl.name placed.1 placed.2
    rcases List.exists_forall₂_iff.mpr eachContributes with ⟨contributions, inStep⟩
    refine ⟨contributions, inStep.imp ?_, ?_, ?_⟩
    · intro placed contribution found
      exact ⟨found.1, found.1.isLeft_iff⟩
    · apply List.Forall₂.filterMap_eq
      exact inStep.imp fun _ _ found => found.2.1
    · have reported := List.Forall₂.filterMap_eq (inStep.imp fun _ _ found => found.2.2)
      rw [← reported, Extraction.ofDecl]
      conv_lhs => rw [← List.zipIdx_map_fst 0 decl.methods, List.filterMap_map]
      rfl
  · intro ρ ε spec owner place contribution contributes
    exact contributes.of_declared

/-- Two defaults at the end, an untyped parameter, a required parameter behind two
defaults, and a handler with more defaults than parameters. -/
theorem extraction_partitions_declaration_mixer :
    let count : Option Constraint := some (.single (.scalar (.signed .w32)))
    let method (name : String) (parameters : List Parameter) : MethodDecl :=
      ⟨"Mixer", name, parameters, none, false⟩
    let mixer : TypeDecl :=
      { name := "Mixer", strategy := none, methods :=
        [method "mix" [⟨"a", count, false⟩, ⟨"b", count, true⟩, ⟨"c", count, true⟩],
          method "stir" [⟨"a", count, true⟩, ⟨"b", none, false⟩],
          method "fold" [⟨"a", count, true⟩, ⟨"b", count, true⟩, ⟨"c", count, false⟩]] }
    let whip : MethodSpec Unit String :=
      { name := "whip", constraints := [count, none], defaults := 9, method := fun _ => pure none }
    (∃ contributions : List (Retained ⊕ Diagnostic),
      contributions.length = mixer.methods.length ∧
      (contributions.filterMap Sum.getLeft?).map Retained.arity = [⟨1, 3⟩] ∧
      contributions.filterMap Sum.getRight? =
        [⟨"Mixer", "stir", .untypedParameter "b"⟩, ⟨"Mixer", "fold", .interiorDefault "c"⟩]) ∧
      Contributes "Mixer" (whip.declared "Mixer") 3
        (.inr ⟨"Mixer", "whip", .untypedParameter "arg1"⟩) ∧
      ∃ parameter ∈ whip.parameters, parameter.constraint = none ∧ parameter.name = "arg1" := by
  intro count method mixer whip
  have split : (whip.declared "Mixer").parameters =
      [⟨"arg0", count, true⟩] ++ ⟨"arg1", none, true⟩ :: [] := rfl
  have contributes : Contributes "Mixer" (whip.declared "Mixer") 3
      (.inr ⟨"Mixer", "whip", .untypedParameter "arg1"⟩) :=
    .untyped split (by simp [count]) rfl
  rcases extraction_partitions_declaration mixer with
    ⟨⟨contributions, inStep, kept, reported⟩, ofSpec⟩
  refine ⟨⟨contributions, inStep.length_eq.symm, ?_, reported.symm⟩, contributes, ?_⟩
  · rw [← kept]
    rfl
  · rcases ofSpec Unit String whip "Mixer" 3 _ contributes with impossible | untyped
    · cases impossible
    · rcases untyped with ⟨parameter, inside, isUntyped, same⟩
      simp only [Sum.inr.injEq, Diagnostic.mk.injEq, DiagnosticKind.untypedParameter.injEq] at same
      exact ⟨parameter, inside, isUntyped, same.2.2.symm⟩

end MultiDispatch
