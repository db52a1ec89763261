import Mathlib.Data.List.Nodup
import MultiDispatch.Proofs.Combination.Specificity
import MultiDispatch.Proofs.Constraint.Collected
import MultiDispatch.Proofs.Pointwise
import MultiDispatch.Signature

/-!
# Expansions

The expansion of a signature lists, each once, the combinations that instantiate
it.  So what can be said of some combination of a signature is said position by
position: two signatures share a combination when they share an alternative
everywhere, and a combination that accepts given types exists when some
alternative does at each position.
-/

namespace MultiDispatch

theorem Combination.instantiates_iff_forall₂ {combination : Combination} {signature : Signature} :
    combination.Instantiates signature ↔
      List.Forall₂ (fun ty (constraint : Constraint) => ty ∈ constraint.members)
        combination.types signature.constraints := by
  simp only [Instantiates, List.forall₂_iff_zip, Prod.forall]

namespace Signature

theorem mem_product_iff {types : List Ty} {constraints : List Constraint} :
    types ∈ product constraints ↔
      List.Forall₂ (fun ty (constraint : Constraint) => ty ∈ constraint.members)
        types constraints := by
  induction constraints generalizing types with
  | nil => simp
  | cons constraint rest inductionHypothesis =>
      simp only [product_cons, List.mem_flatMap, List.mem_map, List.forall₂_cons_right_iff,
        inductionHypothesis]
      constructor
      · intro chosen
        obtain ⟨ty, member, tail, tailMembers, rfl⟩ := chosen
        exact ⟨ty, tail, member, tailMembers, rfl⟩
      · intro chosen
        obtain ⟨ty, tail, member, tailMembers, rfl⟩ := chosen
        exact ⟨ty, member, tail, tailMembers, rfl⟩

@[simp]
theorem mem_expand_iff {combination : Combination} {signature : Signature} :
    combination ∈ signature.expand ↔ combination.Instantiates signature := by
  rw [Combination.instantiates_iff_forall₂, ← mem_product_iff, expand, List.mem_map]
  constructor
  · intro listed
    obtain ⟨types, member, rfl⟩ := listed
    exact member
  · intro member
    exact ⟨combination.types, member, rfl⟩

theorem nodup_product (constraints : List Constraint) : (product constraints).Nodup := by
  induction constraints with
  | nil => simp
  | cons constraint rest inductionHypothesis =>
      rw [product_cons, List.nodup_flatMap]
      constructor
      · intro ty _
        exact inductionHypothesis.map fun _ _ same => (List.cons.inj same).2
      · -- Choices that begin with different alternatives differ.
        refine constraint.nodup_members.imp fun differ => ?_
        intro types inLeft inRight
        obtain ⟨_, _, rfl⟩ := List.mem_map.mp inLeft
        obtain ⟨_, _, same⟩ := List.mem_map.mp inRight
        exact differ (List.cons.inj same).1.symm

theorem nodup_expand (signature : Signature) : signature.expand.Nodup :=
  (nodup_product signature.constraints).map fun _ _ same => congrArg Combination.types same

/-- Equally many parameters, with a common alternative at each. -/
def Overlaps (left right : Signature) : Prop :=
  List.Forall₂ (fun first second : Constraint => ∃ ty ∈ first.members, ty ∈ second.members)
    left.constraints right.constraints

theorem overlaps_iff {left right : Signature} :
    left.Overlaps right ↔
      ∃ combination : Combination,
        combination.Instantiates left ∧ combination.Instantiates right := by
  simp only [Combination.instantiates_iff_forall₂, Overlaps]
  rw [List.forall₂_exists_iff]
  constructor
  · intro common
    obtain ⟨types, inLeft, inRight⟩ := common
    exact ⟨⟨types⟩, inLeft.flip, inRight⟩
  · intro common
    obtain ⟨combination, inLeft, inRight⟩ := common
    exact ⟨combination.types, inLeft.flip, inRight⟩

/-- At each argument some alternative accepts it. -/
def Admits (signature : Signature) (arguments : List Ty) : Prop :=
  List.Forall₂ (fun (constraint : Constraint) argument =>
    ∃ ty ∈ constraint.members, ty.Accepts argument) signature.constraints arguments

theorem admits_iff {signature : Signature} {arguments : List Ty} :
    signature.Admits arguments ↔
      ∃ combination : Combination,
        combination.Instantiates signature ∧ combination.Accepts arguments := by
  simp only [Combination.instantiates_iff_forall₂, Combination.accepts_iff_forall₂, Admits]
  rw [List.forall₂_exists_iff]
  constructor
  · intro accepted
    obtain ⟨types, instantiates, accepts⟩ := accepted
    exact ⟨⟨types⟩, instantiates.flip, accepts⟩
  · intro accepted
    obtain ⟨combination, instantiates, accepts⟩ := accepted
    exact ⟨combination.types, instantiates.flip, accepts⟩

theorem exists_instantiates {signature : Signature}
    (inhabited : ∀ constraint ∈ signature.constraints, constraint.members ≠ []) :
    ∃ combination : Combination, combination.Instantiates signature := by
  obtain ⟨constraints⟩ := signature
  induction constraints with
  | nil => exact ⟨⟨[]⟩, by simp [Combination.Instantiates]⟩
  | cons first rest inductionHypothesis =>
      simp only [List.forall_mem_cons] at inhabited
      obtain ⟨⟨types⟩, instantiates⟩ := inductionHypothesis inhabited.2
      obtain ⟨head, member⟩ := List.exists_mem_of_ne_nil _ inhabited.1
      refine ⟨⟨head :: types⟩, ?_⟩
      apply Combination.instantiates_cons_cons_iff.mpr
      exact ⟨member, instantiates⟩

/-- Where every parameter has an alternative, each alternative of each parameter
occurs in a combination. -/
theorem exists_instantiates_of_mem {signature : Signature}
    (inhabited : ∀ constraint ∈ signature.constraints, constraint.members ≠ [])
    {constraint : Constraint} (parameter : constraint ∈ signature.constraints) {ty : Ty}
    (member : ty ∈ constraint.members) :
    ∃ combination : Combination, combination.Instantiates signature ∧ ty ∈ combination.types := by
  obtain ⟨constraints⟩ := signature
  induction constraints with
  | nil => cases parameter
  | cons first rest inductionHypothesis =>
      simp only [List.forall_mem_cons] at inhabited
      rcases List.mem_cons.mp parameter with rfl | parameter
      · obtain ⟨⟨types⟩, instantiates⟩ : ∃ combination : Combination,
            combination.Instantiates ⟨rest⟩ := exists_instantiates inhabited.2
        refine ⟨⟨ty :: types⟩, ?_, List.mem_cons_self⟩
        apply Combination.instantiates_cons_cons_iff.mpr
        exact ⟨member, instantiates⟩
      · obtain ⟨⟨types⟩, instantiates, occurs⟩ := inductionHypothesis inhabited.2 parameter
        obtain ⟨head, headMember⟩ := List.exists_mem_of_ne_nil _ inhabited.1
        refine ⟨⟨head :: types⟩, ?_, List.mem_cons_of_mem _ occurs⟩
        apply Combination.instantiates_cons_cons_iff.mpr
        exact ⟨headMember, instantiates⟩

/-- What holds of every type in every combination holds of every alternative, if
there are combinations at all. -/
theorem forall_mem_instantiates_iff {signature : Signature} {Holds : Ty → Prop} :
    (∀ combination : Combination, combination.Instantiates signature →
      ∀ ty ∈ combination.types, Holds ty) ↔
      ((∀ constraint ∈ signature.constraints, constraint.members ≠ []) →
        ∀ constraint ∈ signature.constraints, ∀ ty ∈ constraint.members, Holds ty) := by
  constructor
  · intro everywhere inhabited constraint parameter ty member
    obtain ⟨combination, instantiates, occurs⟩ :=
      exists_instantiates_of_mem inhabited parameter member
    exact everywhere combination instantiates ty occurs
  · intro alternatives combination instantiates ty occurs
    rw [Combination.instantiates_iff_forall₂] at instantiates
    have inhabited : ∀ constraint ∈ signature.constraints, constraint.members ≠ [] := by
      intro constraint parameter
      obtain ⟨place, found⟩ := List.mem_iff_getElem?.mp parameter
      obtain ⟨chosen, _, member⟩ := instantiates.exists_getElem?_left found
      exact List.ne_nil_of_mem member
    obtain ⟨place, found⟩ := List.mem_iff_getElem?.mp occurs
    obtain ⟨constraint, parameter, member⟩ := instantiates.exists_getElem?_right found
    exact alternatives inhabited constraint (List.mem_of_getElem? parameter) ty member

end Signature

end MultiDispatch
