import Mathlib.Algebra.Group.End
import Mathlib.Data.List.FinRange
import MultiDispatch.Proofs.Plan.Introspection
import MultiDispatch.Proofs.Plan.Restriction

/-!
# Reordering a declaration

The methods of a declaration may stand in any order.  Their places change, and with
them the order of the combinations and the arities, but the tables hold the same
methods under the same names.
-/

namespace MultiDispatch

/-- The same method in a declaration where it stands at another place. -/
def Retained.moveTo (place : Nat → Nat) (method : Retained) : Retained :=
  { method with index := place method.index }

theorem Retained.standsFor_moveTo (place : Nat → Nat) (method : Retained) :
    method.StandsFor place (method.moveTo place) where
  index_eq := rfl
  signature_eq := rfl
  name_eq := rfl
  strategy_eq := rfl
  kept := id

namespace Plan

/-- The method in the table for the types, under the name. -/
def method? (plan : Plan) (types : List Ty) (name : String) : Option Retained :=
  (plan.table? types).bind (·.find? name)

/-- The combination accepts the types, and its table has an entry for the name. -/
def Offers (plan : Plan) (name : String) (types : List Ty) (combination : Combination) : Prop :=
  combination.Accepts types ∧ (plan.method? combination.types name).isSome

instance (plan : Plan) (name : String) (types : List Ty) (combination : Combination) :
    Decidable (plan.Offers name types combination) :=
  inferInstanceAs (Decidable (_ ∧ _))

/-- Two combinations that could take the types under the name are equally specific. -/
def Ties (plan : Plan) (name : String) (types : List Ty) : Prop :=
  ∃ first ∈ plan.combinations, ∃ second ∈ plan.combinations, first ≠ second ∧
    plan.Offers name types first ∧ plan.Offers name types second ∧
    first.abstractPositions = second.abstractPositions ∧ first.breadth = second.breadth

instance (plan : Plan) (name : String) (types : List Ty) : Decidable (plan.Ties name types) :=
  inferInstanceAs (Decidable (∃ first ∈ plan.combinations, ∃ second ∈ plan.combinations, _))

theorem Offers.mem_combinations {plan : Plan} {name : String} {types : List Ty}
    {combination : Combination} (offered : plan.Offers name types combination) :
    combination ∈ plan.combinations := by
  obtain ⟨method, isMethod⟩ := Option.isSome_iff_exists.mp offered.2
  obtain ⟨table, isTable, _⟩ := Option.bind_eq_some_iff.mp isMethod
  have sameTypes : table.combination.types = combination.types := by
    simpa using List.find?_some isTable
  exact List.mem_map.mpr
    ⟨table, List.mem_of_find?_eq_some isTable, Combination.eq_of_types_eq sameTypes⟩

/-- The plans hold the same methods at the same combinations, under other numbers: the
method at a place of the first stands at the place that `place` gives in the second. -/
structure Renumbers (place : Nat → Nat) (plan original : Plan) : Prop where
  combinations_perm : plan.combinations.Perm original.combinations
  method?_eq : ∀ types name,
    (plan.method? types name).map (Retained.moveTo place) = original.method? types name
  strategyOf_eq : ∀ types name method, plan.method? types name = some method →
    plan.strategyOf method = original.strategyOf (method.moveTo place)
  index_agrees : plan.index.Agrees original.index

end Plan

namespace TypeDecl

/-- The declaration with its methods in another order: at each place stands the method
that the order finds for it. -/
def reorder (decl : TypeDecl) (order : Equiv.Perm (Fin decl.methods.length)) : TypeDecl :=
  { decl with methods := List.ofFn fun place => decl.methods[order place] }

/-- Where the method at a place of the reordered declaration comes from; there is
nothing beyond the methods, and it stays there. -/
def origin (decl : TypeDecl) (order : Equiv.Perm (Fin decl.methods.length)) : Equiv.Perm Nat :=
  order.extendDomain Fin.equivSubtype

variable {decl : TypeDecl} {order : Equiv.Perm (Fin decl.methods.length)}

theorem origin_of_lt {place : Nat} (inside : place < decl.methods.length) :
    decl.origin order place = order ⟨place, inside⟩ :=
  order.extendDomain_apply_subtype Fin.equivSubtype inside

theorem origin_of_not_lt {place : Nat} (beyond : ¬place < decl.methods.length) :
    decl.origin order place = place :=
  order.extendDomain_apply_not_subtype Fin.equivSubtype beyond

theorem getElem?_reorder (place : Nat) :
    (decl.reorder order).methods[place]? = decl.methods[decl.origin order place]? := by
  rw [reorder, List.getElem?_ofFn]
  split
  · rename_i inside
    rw [origin_of_lt inside]
    simp
  · rename_i beyond
    rw [origin_of_not_lt beyond, List.getElem?_eq_none (Nat.le_of_not_lt beyond)]

theorem perm_reorder (decl : TypeDecl) (order : Equiv.Perm (Fin decl.methods.length)) :
    (decl.reorder order).methods.Perm decl.methods := by
  have permuted := order.ofFn_comp_perm fun place => decl.methods[place]
  simpa [reorder, Function.comp_def] using permuted

theorem moveTo_mem_retained_iff {method : Retained} :
    method.moveTo (decl.origin order) ∈ decl.retained ↔ method ∈ (decl.reorder order).retained := by
  rw [mem_retained_iff, mem_retained_iff, getElem?_reorder]
  rfl

/-- Every method of the declaration is somewhere in the reordered one. -/
theorem exists_moveTo_eq (order : Equiv.Perm (Fin decl.methods.length)) {original : Retained}
    (inside : original ∈ decl.retained) :
    ∃ method ∈ (decl.reorder order).retained, method.moveTo (decl.origin order) = original := by
  let method := original.moveTo (decl.origin order).symm
  have movedBack : method.moveTo (decl.origin order) = original := by
    simp [method, Retained.moveTo]
  refine ⟨method, moveTo_mem_retained_iff.mp ?_, movedBack⟩
  rwa [movedBack]

theorem reorder_restricts (decl : TypeDecl) (order : Equiv.Perm (Fin decl.methods.length)) :
    (decl.reorder order).Restricts (decl.origin order) decl where
  strategy_eq := rfl
  injective := (decl.origin order).injective
  exists_original := by
    intro method inside
    exact ⟨_, moveTo_mem_retained_iff.mpr inside, method.standsFor_moveTo _⟩

theorem restricts_reorder (decl : TypeDecl) (order : Equiv.Perm (Fin decl.methods.length)) :
    decl.Restricts (decl.origin order).symm (decl.reorder order) where
  strategy_eq := rfl
  injective := (decl.origin order).symm.injective
  exists_original := by
    intro original inside
    obtain ⟨method, isMethod, rfl⟩ := exists_moveTo_eq order inside
    refine ⟨method, isMethod, ?_, rfl, rfl, rfl, id⟩
    simp [Retained.moveTo]

theorem compilable_reorder_iff {options : CompileOptions} :
    (decl.reorder order).Compilable options ↔ decl.Compilable options :=
  ⟨(·.restrict (decl.restricts_reorder order)), (·.restrict (decl.reorder_restricts order))⟩

section

variable {options : CompileOptions}

theorem mem_combinations_plan_iff {combination : Combination} :
    combination ∈ (decl.plan options).combinations ↔
      ∃ method ∈ decl.retained, combination.Instantiates method.signature := by
  simp only [combinations_plan, List.mem_eraseDups, List.mem_flatMap, Signature.mem_expand_iff]

theorem combinations_reorder_perm :
    ((decl.reorder order).plan options).combinations.Perm (decl.plan options).combinations := by
  apply (List.perm_ext_iff_of_nodup (nodup_combinations_plan _ _)
    (nodup_combinations_plan _ _)).mpr
  intro combination
  rw [mem_combinations_plan_iff, mem_combinations_plan_iff]
  constructor
  · intro instantiated
    obtain ⟨method, inside, instantiates⟩ := instantiated
    exact ⟨_, moveTo_mem_retained_iff.mpr inside, instantiates⟩
  · intro instantiated
    obtain ⟨original, inside, instantiates⟩ := instantiated
    obtain ⟨method, isMethod, rfl⟩ := exists_moveTo_eq order inside
    exact ⟨method, isMethod, instantiates⟩

/-- Under its name at a combination stands the method that answers there. -/
theorem method?_plan_eq_some_iff (compilable : decl.Compilable options) {types : List Ty}
    {name : String} {method : Retained} :
    (decl.plan options).method? types name = some method ↔
      method ∈ decl.retained ∧ method.name = name ∧ method.Answers ⟨types⟩ := by
  rw [Plan.method?, Option.bind_eq_some_iff]
  constructor
  · intro held
    obtain ⟨table, isTable, isEntry⟩ := held
    obtain ⟨listed, rfl⟩ := table?_plan_eq_some_iff.mp isTable
    exact answers_of_find?_of_mem_tables listed isEntry
  · intro answering
    obtain ⟨inside, rfl, answers⟩ := answering
    exact exists_table?_of_answers compilable inside answers

theorem method?_reorder (compilable : decl.Compilable options) (types : List Ty) (name : String) :
    (((decl.reorder order).plan options).method? types name).map
      (Retained.moveTo (decl.origin order)) = (decl.plan options).method? types name := by
  apply Option.ext
  intro original
  simp only [Option.map_eq_some_iff, method?_plan_eq_some_iff compilable,
    method?_plan_eq_some_iff (compilable_reorder_iff.mpr compilable)]
  constructor
  · intro answering
    obtain ⟨method, ⟨inside, sameName, answers⟩, rfl⟩ := answering
    exact ⟨moveTo_mem_retained_iff.mpr inside, sameName, answers⟩
  · intro answering
    obtain ⟨inside, sameName, answers⟩ := answering
    obtain ⟨method, isMethod, rfl⟩ := exists_moveTo_eq order inside
    exact ⟨method, ⟨isMethod, sameName, answers⟩, rfl⟩

theorem agrees_index_reorder :
    ((decl.reorder order).plan options).index.Agrees (decl.plan options).index := by
  apply ArityIndex.agrees_build_of_perm
  intro name
  rw [ArityIndex.overloads_retained, ArityIndex.overloads_retained]
  exact ((((decl.perm_reorder order).filter _).filter _).filter _).map _

theorem renumbers_reorder (order : Equiv.Perm (Fin decl.methods.length))
    (compilable : decl.Compilable options) :
    ((decl.reorder order).plan options).Renumbers (decl.origin order) (decl.plan options) where
  combinations_perm := combinations_reorder_perm
  method?_eq := method?_reorder compilable
  strategyOf_eq := fun _ _ _ _ => rfl
  index_agrees := agrees_index_reorder

end

end TypeDecl

end MultiDispatch
