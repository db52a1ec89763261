import MultiDispatch.Proofs.Plan.Extraction
import MultiDispatch.Proofs.Signature.Expansion
import MultiDispatch.Registry

/-!
# Methods with handlers

A method that comes with its handler has its defaults last, so all that can keep
it from being dispatched is a parameter without a restriction.  Its place among
the methods of its type is the place of its declaration.
-/

namespace MultiDispatch

variable {ρ ε : Type}

namespace MethodSpec

variable {spec : MethodSpec ρ ε} {owner : String}

theorem map_constraint_parameters : spec.parameters.map (·.constraint) = spec.constraints := by
  simp only [parameters, List.map_map, Function.comp_def]
  exact List.zipIdx_map_fst 0 spec.constraints

theorem signature?_declared_eq_some_iff {signature : Signature} :
    (spec.declared owner).signature? = some signature ↔
      spec.constraints = signature.constraints.map some := by
  rw [MethodDecl.signature?_eq_some_iff, ← map_constraint_parameters]
  rfl

/-- The defaults stand last, whatever their number. -/
theorem pairwise_hasDefault_parameters :
    spec.parameters.Pairwise fun earlier later => earlier.hasDefault → later.hasDefault := by
  unfold parameters
  rw [List.pairwise_map]
  apply spec.constraints.pairwise_snd_lt_zipIdx.imp
  intro earlier later less
  simp only [decide_eq_true_eq]
  omega

theorem exclusion?_declared_eq_none_iff :
    (spec.declared owner).exclusion? = none ↔
      ∀ constraint ∈ spec.constraints, constraint ≠ none := by
  rw [MethodDecl.exclusion?_eq_none_iff, ← map_constraint_parameters, List.forall_mem_map]
  constructor
  · exact And.left
  · intro typed
    exact ⟨typed, pairwise_hasDefault_parameters⟩

/-- The method is declared like its handler's parameters, and runs the handler. -/
structure Runs (spec : MethodSpec ρ ε) (handler : Handler ρ ε) : Prop where
  constraints_eq : spec.constraints = handler.parameters.map ParamType.constraint?
  method_eq : spec.method = handler.method

/-- The method is dispatched under the name, and at each argument it has a declared
alternative that accepts it. -/
def Takes (spec : MethodSpec ρ ε) (name : String) (arguments : List Ty) : Prop :=
  spec.skip = false ∧ spec.name = name ∧
    List.Forall₂ (fun declared argument => ∃ constraint : Constraint, declared = some constraint ∧
      ∃ ty ∈ constraint.members, ty.Accepts argument) spec.constraints arguments

end MethodSpec

namespace TypeSpec

variable {spec : TypeSpec ρ ε}

/-- A method is retained when all its parameters are restricted, and keeps its place. -/
theorem mem_retained_decl_iff {method : Retained} :
    method ∈ spec.decl.retained ↔
      ∃ declared, spec.methods[method.index]? = some declared ∧
        method.declared = declared.declared spec.name ∧
        declared.constraints = method.signature.constraints.map some := by
  simp only [TypeDecl.mem_retained_iff, decl, List.getElem?_map, Option.map_eq_some_iff]
  constructor
  · intro inside
    obtain ⟨⟨declared, isDeclared, same⟩, _, hasSignature⟩ := inside
    rw [← same, MethodSpec.signature?_declared_eq_some_iff] at hasSignature
    exact ⟨declared, isDeclared, same.symm, hasSignature⟩
  · intro present
    obtain ⟨declared, isDeclared, same, typed⟩ := present
    rw [same, MethodSpec.exclusion?_declared_eq_none_iff,
      MethodSpec.signature?_declared_eq_some_iff]
    refine ⟨⟨declared, isDeclared, rfl⟩, ?_, typed⟩
    simp [typed]

theorem getElem?_map_method {handlers : List (Handler ρ ε)}
    (typed : List.Forall₂ MethodSpec.Runs spec.methods handlers) {place : Nat}
    {handler : Handler ρ ε} (isHandler : handlers[place]? = some handler) :
    (spec.methods.map MethodSpec.method)[place]? = some handler.method := by
  obtain ⟨declared, isDeclared, runs⟩ := typed.exists_getElem?_left isHandler
  rw [List.getElem?_map, isDeclared, Option.map_some, runs.method_eq]

/-- Some method takes the arguments under the name. -/
def Takes (spec : TypeSpec ρ ε) (name : String) (arguments : List Ty) : Prop :=
  ∃ method ∈ spec.methods, method.Takes name arguments

theorem takes_iff_exists_retained {name : String} {arguments : List Ty} :
    spec.Takes name arguments ↔
      ∃ method ∈ spec.decl.retained, method.name = name ∧ method.skip = false ∧
        method.signature.Admits arguments := by
  constructor
  · intro taken
    obtain ⟨declared, inside, kept, sameName, accepts⟩ := taken
    obtain ⟨place, isDeclared⟩ := List.mem_iff_getElem?.mp inside
    obtain ⟨constraints, typed, admits⟩ := List.forall₂_exists_some_iff.mp accepts
    let retained : Retained := ⟨declared.declared spec.name, ⟨constraints⟩, place⟩
    have isRetained : retained ∈ spec.decl.retained :=
      mem_retained_decl_iff.mpr ⟨declared, isDeclared, rfl, typed⟩
    exact ⟨retained, isRetained, sameName, kept, admits⟩
  · intro admitted
    obtain ⟨method, inside, sameName, kept, admits⟩ := admitted
    obtain ⟨declared, isDeclared, same, typed⟩ := mem_retained_decl_iff.mp inside
    refine ⟨declared, List.mem_of_getElem? isDeclared, ?_, ?_, ?_⟩
    · rw [Retained.skip, same] at kept
      exact kept
    · rw [Retained.name, same] at sameName
      exact sameName
    · apply List.forall₂_exists_some_iff.mpr
      exact ⟨_, typed, admits⟩

end TypeSpec

end MultiDispatch
