import MultiDispatch.Plan.Extraction
import MultiDispatch.Proofs.Pointwise

/-!
# Retained methods

The retained methods are the dispatchable ones of the declaration, each with its
place there.  They stand in declaration order, so a retained method is known by
its place.
-/

namespace MultiDispatch

namespace MethodDecl

variable {method : MethodDecl}

theorem signature?_eq_some_iff {signature : Signature} :
    method.signature? = some signature ↔
      method.parameters.map (·.constraint) = signature.constraints.map some := by
  obtain ⟨constraints⟩ := signature
  simp [signature?, Option.map_eq_some_iff, List.mapM_eq_some_iff]

/-- No default is misplaced when each parameter after a defaulted one has a default too. -/
theorem requiredAfterDefault?_eq_none_iff :
    method.requiredAfterDefault? = none ↔
      method.parameters.Pairwise fun earlier later => earlier.hasDefault → later.hasDefault := by
  unfold requiredAfterDefault?
  induction method.parameters with
  | nil => simp
  | cons first rest inductionHypothesis =>
      rw [List.pairwise_cons]
      by_cases default : first.hasDefault = true
      · rw [List.dropWhile_cons_of_neg (by simp [default])]
        simp only [List.find?_eq_none, List.forall_mem_cons, Bool.not_eq_true', default,
          Bool.not_eq_false, forall_const, true_and]
        constructor
        · intro allDefault
          refine ⟨allDefault, List.pairwise_of_forall_mem_list ?_⟩
          intro _ _ later inside _
          exact allDefault later inside
        · exact And.left
      · rw [List.dropWhile_cons_of_pos (by simp [default]), inductionHypothesis]
        simp [default]

theorem exclusion?_eq_none_iff :
    method.exclusion? = none ↔
      (∀ parameter ∈ method.parameters, parameter.constraint ≠ none) ∧
        method.parameters.Pairwise fun earlier later => earlier.hasDefault → later.hasDefault := by
  rw [exclusion?, Option.or_eq_none_iff, Option.map_eq_none_iff, Option.map_eq_none_iff,
    firstUntyped?_eq_none_iff, requiredAfterDefault?_eq_none_iff]

/-- A method that nothing excludes has all its parameters typed. -/
theorem exists_signature? (dispatchable : method.exclusion? = none) :
    ∃ signature, method.signature? = some signature := by
  have typed := (exclusion?_eq_none_iff.mp dispatchable).1
  have present : ∀ parameter ∈ method.parameters, ∃ constraint,
      parameter.constraint = some constraint := by
    intro parameter inside
    exact Option.ne_none_iff_exists'.mp (typed parameter inside)
  obtain ⟨constraints, inStep⟩ := List.exists_forall₂_iff.mpr present
  refine ⟨⟨constraints⟩, signature?_eq_some_iff.mpr ?_⟩
  rw [← List.forall₂_eq_eq_eq, List.forall₂_map_left_iff, List.forall₂_map_right_iff]
  exact inStep

end MethodDecl

theorem Extraction.retain?_eq_some_iff {method : MethodDecl} {index : Nat} {retained : Retained} :
    retain? method index = some retained ↔
      retained.declared = method ∧ retained.index = index ∧ method.exclusion? = none ∧
        method.signature? = some retained.signature := by
  obtain ⟨declared, signature, place⟩ := retained
  unfold retain?
  split
  · rename_i found notExcluded hasSignature
    simp only [Option.some.injEq, Retained.mk.injEq]
    constructor
    · intro same
      obtain ⟨rfl, rfl, rfl⟩ := same
      exact ⟨rfl, rfl, notExcluded, hasSignature⟩
    · intro matching
      obtain ⟨rfl, rfl, _, sameSignature⟩ := matching
      exact ⟨rfl, Option.some.inj (hasSignature.symm.trans sameSignature), rfl⟩
  · rename_i other
    constructor
    · intro impossible
      cases impossible
    · intro matching
      obtain ⟨_, _, notExcluded, hasSignature⟩ := matching
      exact absurd hasSignature (other signature notExcluded)

namespace TypeDecl

/-- The methods of the declaration that can be dispatched, in its order. -/
def retained (decl : TypeDecl) : List Retained := (Extraction.ofDecl decl).methods

theorem mem_retained_iff {decl : TypeDecl} {method : Retained} :
    method ∈ decl.retained ↔
      decl.methods[method.index]? = some method.declared ∧ method.declared.exclusion? = none ∧
        method.declared.signature? = some method.signature := by
  simp only [retained, Extraction.ofDecl, List.mem_filterMap, Prod.exists,
    List.mk_mem_zipIdx_iff_getElem?, Extraction.retain?_eq_some_iff]
  constructor
  · intro listed
    obtain ⟨declared, index, found, rfl, rfl, notExcluded, hasSignature⟩ := listed
    exact ⟨found, notExcluded, hasSignature⟩
  · intro listed
    obtain ⟨found, notExcluded, hasSignature⟩ := listed
    exact ⟨method.declared, method.index, found, rfl, rfl, notExcluded, hasSignature⟩

theorem pairwise_index_retained (decl : TypeDecl) :
    decl.retained.Pairwise fun earlier later => earlier.index < later.index := by
  refine decl.methods.pairwise_snd_lt_zipIdx.filterMap _ ?_
  intro earlier later less first isFirst second isSecond
  obtain ⟨_, firstPlace, _⟩ := Extraction.retain?_eq_some_iff.mp isFirst
  obtain ⟨_, secondPlace, _⟩ := Extraction.retain?_eq_some_iff.mp isSecond
  rw [firstPlace, secondPlace]
  exact less

theorem eq_of_index_eq {decl : TypeDecl} {first second : Retained} (isFirst : first ∈ decl.retained)
    (isSecond : second ∈ decl.retained) (same : first.index = second.index) : first = second := by
  rw [mem_retained_iff] at isFirst isSecond
  have sameDeclared : first.declared = second.declared := by
    apply Option.some.inj
    rw [← isFirst.1, ← isSecond.1, same]
  have sameSignature : first.signature = second.signature := by
    apply Option.some.inj
    rw [← isFirst.2.2, ← isSecond.2.2, sameDeclared]
  cases first
  cases second
  simp_all

/-- The retained methods are the declared ones that nothing excludes. -/
theorem map_declared_retained (decl : TypeDecl) :
    decl.retained.map (·.declared) = decl.methods.filter fun method => method.exclusion? = none := by
  have retainedOrNot : ∀ (method : MethodDecl) (index : Nat),
      (Extraction.retain? method index).map (·.declared) =
        Option.guard (fun method => method.exclusion? = none) method := by
    intro method index
    by_cases dispatchable : method.exclusion? = none
    · obtain ⟨signature, hasSignature⟩ := MethodDecl.exists_signature? dispatchable
      simp [Extraction.retain?, Option.guard, dispatchable, hasSignature]
    · simp [Extraction.retain?, Option.guard, dispatchable]
  simp only [retained, Extraction.ofDecl, List.map_filterMap, retainedOrNot]
  conv_rhs => rw [← List.zipIdx_map_fst 0 decl.methods, ← List.filterMap_eq_filter]
  rw [List.filterMap_map]
  rfl

end TypeDecl

end MultiDispatch
