import MultiDispatch.Proofs.Plan.Introspection
import MultiDispatch.Proofs.Plan.Restriction

/-!
# Skipping a method

To skip a method is to take its entries out of the tables, and nothing else: the
tables that lose their last entry keep their places, and whatever a method does
without entries, such as counting towards the limit, it still does.
-/

namespace List

variable {α β : Type*} {items : List α} {place : Nat} {change : α → α}

theorem zipIdx_modify (items : List α) (place : Nat) (change : α → α) :
    (items.modify place change).zipIdx =
      items.zipIdx.map fun (item, index) =>
        (if place = index then change item else item, index) := by
  apply ext_getElem?
  intro index
  rw [getElem?_map, getElem?_zipIdx, getElem?_zipIdx, getElem?_modify]
  cases items[index]? <;> simp

/-- A change that does not show leaves what is shown as it was. -/
theorem map_modify_of_unchanged {shown : α → β}
    (unchanged : ∀ item, shown (change item) = shown item) :
    (items.modify place change).map shown = items.map shown := by
  apply ext_getElem?
  intro index
  rw [getElem?_map, getElem?_map, getElem?_modify]
  cases items[index]? with
  | none => rfl
  | some item =>
      by_cases here : place = index <;> simp [here, unchanged]

/-- To change an item into one that is dropped is to remove it. -/
theorem filter_modify_of_dropped {keep : α → Bool} (dropped : ∀ item, keep (change item) = false) :
    (items.modify place change).filter keep = (items.eraseIdx place).filter keep := by
  induction items generalizing place with
  | nil => simp
  | cons first rest inductionHypothesis =>
      cases place with
      | zero => simp [dropped]
      | succ place =>
          rw [modify_succ_cons, eraseIdx_cons_succ, filter_cons, filter_cons, inductionHypothesis]

end List

namespace MultiDispatch

def MethodDecl.skipped (method : MethodDecl) : MethodDecl := { method with skip := true }

namespace Retained

/-- The retained method of a declaration in which the method at the place is skipped. -/
def skipAt (place : Nat) (method : Retained) : Retained :=
  if place = method.index then { method with declared := method.declared.skipped } else method

variable {place : Nat} {method : Retained}

@[simp]
theorem index_skipAt : (method.skipAt place).index = method.index := by
  unfold skipAt
  split <;> rfl

@[simp]
theorem signature_skipAt : (method.skipAt place).signature = method.signature := by
  unfold skipAt
  split <;> rfl

@[simp]
theorem name_skipAt : (method.skipAt place).name = method.name := by
  unfold skipAt
  split <;> rfl

@[simp]
theorem arity_skipAt : (method.skipAt place).arity = method.arity := by
  unfold skipAt
  split <;> rfl

@[simp]
theorem strategy_skipAt : (method.skipAt place).declared.strategy = method.declared.strategy := by
  unfold skipAt
  split <;> rfl

theorem skipAt_of_ne (elsewhere : method.index ≠ place) : method.skipAt place = method := by
  rw [skipAt, if_neg elsewhere.symm]

theorem skip_skipAt_self : (method.skipAt method.index).skip = true := by
  rw [skipAt, if_pos rfl]
  rfl

/-- A method that is still dispatched is another one. -/
theorem index_ne_of_skip_skipAt (kept : (method.skipAt place).skip = false) :
    method.index ≠ place := by
  rintro rfl
  rw [skip_skipAt_self] at kept
  cases kept

theorem skipAt_standsFor : (method.skipAt place).StandsFor id method where
  index_eq := by simp
  signature_eq := by simp
  name_eq := by simp
  strategy_eq := by simp
  kept := by
    intro kept
    rwa [skipAt_of_ne (index_ne_of_skip_skipAt kept)] at kept

end Retained

namespace TypeDecl

def skipAt (decl : TypeDecl) (place : Nat) : TypeDecl :=
  { decl with methods := decl.methods.modify place MethodDecl.skipped }

def removeAt (decl : TypeDecl) (place : Nat) : TypeDecl :=
  { decl with methods := decl.methods.eraseIdx place }

/-- Whether a method is skipped has no part in whether it is retained. -/
theorem retained_skipAt (decl : TypeDecl) (place : Nat) :
    (decl.skipAt place).retained = decl.retained.map (Retained.skipAt place) := by
  have stillRetained : ∀ (method : MethodDecl) (index : Nat),
      Extraction.retain? (if place = index then method.skipped else method) index =
        (Extraction.retain? method index).map (Retained.skipAt place) := by
    intro method index
    have sameExclusion : method.skipped.exclusion? = method.exclusion? := rfl
    have sameSignature : method.skipped.signature? = method.signature? := rfl
    cases excluded : method.exclusion? with
    | some _ => by_cases here : place = index <;> simp [Extraction.retain?, *]
    | none =>
        cases typed : method.signature? with
        | none => by_cases here : place = index <;> simp [Extraction.retain?, *]
        | some signature =>
            by_cases here : place = index <;> simp [Extraction.retain?, Retained.skipAt, *]
  simp only [retained, Extraction.ofDecl, skipAt, List.zipIdx_modify, List.filterMap_map,
    List.map_filterMap, ← stillRetained]
  rfl

theorem diagnostics_skipAt (decl : TypeDecl) (place : Nat) :
    (Extraction.ofDecl (decl.skipAt place)).diagnostics =
      (Extraction.ofDecl decl).diagnostics := by
  let report (method : MethodDecl) : Option Diagnostic :=
    method.exclusion?.map (⟨decl.name, method.name, ·⟩)
  have unchanged : (decl.methods.modify place MethodDecl.skipped).map report =
      decl.methods.map report := List.map_modify_of_unchanged fun _ => rfl
  have sameReports := congrArg (List.filterMap id) unchanged
  rw [List.filterMap_map, List.filterMap_map] at sameReports
  exact sameReports

theorem skipAt_restricts (decl : TypeDecl) (place : Nat) :
    (decl.skipAt place).Restricts id decl where
  strategy_eq := rfl
  injective := Function.injective_id
  exists_original := by
    intro method inside
    rw [retained_skipAt, List.mem_map] at inside
    obtain ⟨original, isOriginal, rfl⟩ := inside
    exact ⟨original, isOriginal, Retained.skipAt_standsFor⟩

theorem removeAt_restricts (decl : TypeDecl) (place : Nat) :
    (decl.removeAt place).Restricts (fun index => if index < place then index else index + 1)
      decl where
  strategy_eq := rfl
  injective := by
    intro first second same
    dsimp only at same
    split at same <;> split at same <;> omega
  exists_original := by
    intro method inside
    obtain ⟨declared, dispatchable, typed⟩ := mem_retained_iff.mp inside
    let original : Retained :=
      { method with index := if method.index < place then method.index else method.index + 1 }
    have isOriginal : original ∈ decl.retained := by
      apply mem_retained_iff.mpr
      refine ⟨?_, dispatchable, typed⟩
      rw [removeAt, List.getElem?_eraseIdx, ← apply_ite (decl.methods[·]?)] at declared
      exact declared
    exact ⟨original, isOriginal, rfl, rfl, rfl, rfl, id⟩

end TypeDecl

namespace ArityIndex

variable (decl : TypeDecl) (place : Nat)

/-- Where skipped methods are shown, it makes no difference which are skipped. -/
theorem build_skipAt_of_shown :
    build (decl.skipAt place).retained true = build decl.retained true := by
  apply build_eq_of_overloads_eq
  intro name
  simp only [TypeDecl.retained_skipAt, overloads, List.filter_map, List.map_map, Function.comp_def,
    Bool.true_or, Retained.name_skipAt, Retained.arity_skipAt]

/-- Where they are hidden, the skipped method might as well not be there. -/
theorem build_skipAt_of_hidden :
    build (decl.skipAt place).retained false = build (decl.removeAt place).retained false := by
  apply build_eq_of_overloads_eq
  intro name
  simp only [overloads_retained, List.filter_filter, TypeDecl.skipAt, TypeDecl.removeAt]
  rw [List.filter_modify_of_dropped]
  intro method
  simp [MethodDecl.skipped]

end ArityIndex

namespace Table

/-- The table without the entries of the method at the place. -/
def removeAt (place : Nat) (table : Table) : Table :=
  { table with entries := table.entries.filter fun method => method.index ≠ place }

variable {methods : List Retained} {place : Nat} {combination : Combination}

theorem find?_removeAt_eq_some_iff {table : Table} {name : String} {method : Retained} :
    (table.removeAt place).find? name = some method ↔
      table.find? name = some method ∧ method.index ≠ place := by
  simp only [find?, removeAt, NameMap.find?_filter_eq_some_iff, decide_eq_true_eq]

theorem ofMethods_skipAt (unambiguous : Retained.Unambiguous methods)
    (stillUnambiguous : Retained.Unambiguous (methods.map (Retained.skipAt place))) :
    ofMethods (methods.map (Retained.skipAt place)) combination =
      (ofMethods methods combination).removeAt place := by
  refine eq_of_find?_eq rfl fun name => Option.ext fun method => ?_
  rw [find?_ofMethods_eq_some_iff stillUnambiguous, find?_removeAt_eq_some_iff,
    find?_ofMethods_eq_some_iff unambiguous, List.mem_map]
  constructor
  · intro answering
    obtain ⟨⟨original, inside, rfl⟩, sameName, answers⟩ := answering
    have elsewhere := Retained.index_ne_of_skip_skipAt answers.1
    rw [Retained.skipAt_of_ne elsewhere] at sameName answers ⊢
    exact ⟨⟨inside, sameName, answers⟩, elsewhere⟩
  · intro answering
    obtain ⟨⟨inside, sameName, answers⟩, elsewhere⟩ := answering
    exact ⟨⟨method, inside, Retained.skipAt_of_ne elsewhere⟩, sameName, answers⟩

/-- Each table loses the entries of the skipped method and keeps its place. -/
theorem allOfMethods_skipAt
    (ordered : methods.Pairwise fun earlier later => earlier.index < later.index)
    (unambiguous : Retained.Unambiguous methods)
    (stillUnambiguous : Retained.Unambiguous (methods.map (Retained.skipAt place))) :
    allOfMethods (methods.map (Retained.skipAt place)) =
      (allOfMethods methods).map (removeAt place) := by
  have stillOrdered : (methods.map (Retained.skipAt place)).Pairwise
      fun earlier later => earlier.index < later.index := by
    rw [List.pairwise_map]
    simpa only [Retained.index_skipAt] using ordered
  rw [allOfMethods, allOfMethods, flatMap_fresh stillOrdered, flatMap_fresh ordered,
    List.flatMap_map, List.map_map]
  simp only [Retained.signature_skipAt]
  apply List.map_congr_left
  intro combination _
  exact ofMethods_skipAt unambiguous stillUnambiguous

end Table

namespace TypeDecl

variable {decl : TypeDecl} {options : CompileOptions}

/-- The second result is the first one without the entries of the method at the place. -/
structure LosesEntriesAt (place : Nat) (compiled skipped : Compiled) : Prop where
  methods : skipped.plan.methods = compiled.plan.methods.map (Retained.skipAt place)
  combinations : skipped.plan.combinations = compiled.plan.combinations
  tables : skipped.plan.tables = compiled.plan.tables.map (Table.removeAt place)
  diagnostics : skipped.diagnostics = compiled.diagnostics
  strategies : ∀ method ∈ compiled.plan.methods, method.index ≠ place →
    skipped.plan.strategy? (method.skipAt place) = compiled.plan.strategy? method

theorem losesEntriesAt_of_compile {compiled skipped : Compiled} {place : Nat}
    (compiles : decl.compile options = .ok compiled)
    (skippedCompiles : (decl.skipAt place).compile options = .ok skipped) :
    LosesEntriesAt place compiled skipped := by
  have compilable := compile_isOk_iff.mp ⟨compiled, compiles⟩
  have unambiguous := compilable.unambiguous
  have stillUnambiguous := (compile_isOk_iff.mp ⟨skipped, skippedCompiles⟩).unambiguous
  rw [retained_skipAt] at stillUnambiguous
  obtain ⟨_, _, _, rfl⟩ := compile_eq_ok_iff.mp compiles
  obtain ⟨_, _, _, rfl⟩ := compile_eq_ok_iff.mp skippedCompiles
  have tables : ((decl.skipAt place).plan options).tables =
      (decl.plan options).tables.map (Table.removeAt place) := by
    simp only [plan, retained_skipAt]
    exact Table.allOfMethods_skipAt decl.pairwise_index_retained unambiguous stillUnambiguous
  refine ⟨retained_skipAt decl place, ?combinations, tables, ?diagnostics, ?strategies⟩
  case combinations =>
    simp only [Plan.combinations, tables, List.map_map]
    rfl
  case diagnostics =>
    have sameReports : (decl.skipAt place).retained.filterMap
        ((decl.skipAt place).largeExpansion? options) =
          decl.retained.filterMap (decl.largeExpansion? options) := by
      rw [retained_skipAt, List.filterMap_map]
      apply List.filterMap_congr
      intro method _
      simp [largeExpansion?, skipAt]
    simp only [diagnostics_skipAt, sameReports]
  case strategies =>
    intro method _ elsewhere
    rw [Retained.skipAt_of_ne elsewhere]
    rfl

/-- Skipping a method removes its entries and nothing else: the declaration still
compiles, to the same methods, combinations, diagnostics and strategies, and to tables
that lack only the entries of this method.  The index does not change where skipped
methods are shown, and is that of the declaration without the method where they are
not. -/
theorem skipping_removes_entries_only {compiled : Compiled}
    (compiles : decl.compile options = .ok compiled) :
    (∀ place, ∃ skipped, (decl.skipAt place).compile options = .ok skipped ∧
      LosesEntriesAt place compiled skipped ∧
      (options.introspectSkipped = true → skipped.plan.index = compiled.plan.index) ∧
      (options.introspectSkipped = false → ∃ removed,
        (decl.removeAt place).compile options = .ok removed ∧
          skipped.plan.index = removed.plan.index)) ∧
      ∀ method ∈ compiled.plan.methods, method.skip = true →
        ∀ table ∈ compiled.plan.tables, method ∉ table.entries.values := by
  have compilable := compile_isOk_iff.mp ⟨compiled, compiles⟩
  constructor
  · intro place
    obtain ⟨skipped, skippedCompiles⟩ :=
      compile_isOk_iff.mpr (compilable.restrict (decl.skipAt_restricts place))
    refine ⟨skipped, skippedCompiles, losesEntriesAt_of_compile compiles skippedCompiles, ?_, ?_⟩
    · intro areShown
      rw [plan_of_compile compiles, plan_of_compile skippedCompiles, plan, plan, areShown]
      exact ArityIndex.build_skipAt_of_shown decl place
    · intro areHidden
      obtain ⟨removed, removedCompiles⟩ :=
        compile_isOk_iff.mpr (compilable.restrict (decl.removeAt_restricts place))
      refine ⟨removed, removedCompiles, ?_⟩
      rw [plan_of_compile removedCompiles, plan_of_compile skippedCompiles, plan, plan, areHidden]
      exact ArityIndex.build_skipAt_of_hidden decl place
  · intro method _ isSkipped table isTable held
    obtain ⟨name, isEntry⟩ := NameMap.mem_values_iff.mp held
    rw [plan_of_compile compiles] at isTable
    obtain ⟨_, _, kept, _⟩ := answers_of_find?_of_mem_tables isTable isEntry
    rw [isSkipped] at kept
    cases kept

/-- Without its drawing of words and whole numbers a canvas keeps their tables, but has
nothing to dispatch to there. -/
theorem skipping_removes_entries_only_canvas :
    ∃ compiled skipped, canvas.compile { introspectSkipped := false } = .ok compiled ∧
      (canvas.skipAt 2).compile { introspectSkipped := false } = .ok skipped ∧
      LosesEntriesAt 2 compiled skipped ∧
      (∃ removed, (canvas.removeAt 2).compile { introspectSkipped := false } = .ok removed ∧
        skipped.plan.index = removed.plan.index) ∧
      compiled.plan.tables.length = 5 ∧ skipped.plan.tables.length = 5 ∧
      compiled.plan.populated.length = 4 ∧ skipped.plan.populated.length = 2 := by
  have compiles : canvas.compile { introspectSkipped := false } = .ok _ := rfl
  obtain ⟨skips, _⟩ := skipping_removes_entries_only compiles
  obtain ⟨skipped, skippedCompiles, loses, _, hidden⟩ := skips 2
  have isPlan := plan_of_compile skippedCompiles
  refine ⟨_, skipped, compiles, skippedCompiles, loses, hidden rfl, rfl, ?_, rfl, ?_⟩
  · rw [isPlan]
    rfl
  · rw [isPlan]
    rfl

end TypeDecl

end MultiDispatch
