import Mathlib.Data.List.Induction
import MultiDispatch.Plan.Table
import MultiDispatch.Proofs.NameMap
import MultiDispatch.Proofs.Plan.Extraction
import MultiDispatch.Proofs.Signature.Expansion

/-!
# The layout of tables

The tables stand for the expansions of the methods with later repeats left out.
Two methods clash when they could answer the same send; among methods that do
not, a table holds under a name exactly the method that answers there.
-/

namespace List

/-- What a search by a key finds, where no two items have the same key. -/
theorem find?_eq_some_iff_of_nodup_map {α β : Type*} [DecidableEq β] {items : List α}
    {key : α → β} (distinct : (items.map key).Nodup) {sought : β} {item : α} :
    items.find? (fun other => key other = sought) = some item ↔
      item ∈ items ∧ key item = sought := by
  constructor
  · intro found
    exact ⟨mem_of_find?_eq_some found, by simpa using find?_some found⟩
  · intro holds
    obtain ⟨inside, rfl⟩ := holds
    have found : (items.find? fun other => key other = key item).isSome :=
      find?_isSome.mpr ⟨item, inside, by simp⟩
    obtain ⟨other, isOther⟩ := Option.isSome_iff_exists.mp found
    have sameKey : key other = key item := by simpa using find?_some isOther
    rw [isOther, inj_on_of_nodup_map distinct (mem_of_find?_eq_some isOther) inside sameKey]

variable {α : Type*} [DecidableEq α]

theorem eraseDups_of_nodup {items : List α} (distinct : items.Nodup) :
    items.eraseDups = items := by
  induction items with
  | nil => rfl
  | cons first rest inductionHypothesis =>
      rw [nodup_cons] at distinct
      have untouched : rest.filter (fun item => !item == first) = rest := by
        apply filter_eq_self.mpr
        intro item inside
        have differs : item ≠ first := fun same => distinct.1 (same ▸ inside)
        simpa using differs
      rw [eraseDups_cons, untouched, inductionHypothesis distinct.2]

theorem eraseDups_append_singleton (items : List α) (last : α) :
    (items ++ [last]).eraseDups =
      if last ∈ items then items.eraseDups else items.eraseDups ++ [last] := by
  rw [eraseDups_append]
  by_cases known : last ∈ items
  · simp [removeAll, known]
  · simp [removeAll, known, eraseDups_cons]

theorem nodup_eraseDups (items : List α) : items.eraseDups.Nodup := by
  induction items using List.reverseRecOn with
  | nil => exact .nil
  | append_singleton items last inductionHypothesis =>
      rw [eraseDups_append_singleton]
      split
      · exact inductionHypothesis
      · rename_i unknown
        rw [nodup_append]
        refine ⟨inductionHypothesis, by simp, ?_⟩
        rintro item inside _ isLast rfl
        rw [mem_singleton.mp isLast, mem_eraseDups] at inside
        exact unknown inside

end List

namespace MultiDispatch

namespace Retained

/-- Two methods of one name that would both answer at some combination. -/
def Clashes (first second : Retained) : Prop :=
  first.name = second.name ∧ first.skip = false ∧ second.skip = false ∧
    first.signature.Overlaps second.signature

theorem clashes_iff {first second : Retained} :
    first.Clashes second ↔
      first.name = second.name ∧
        ∃ combination, first.Answers combination ∧ second.Answers combination := by
  simp only [Clashes, Answers, Signature.overlaps_iff]
  constructor
  · intro clash
    obtain ⟨sameName, firstKept, secondKept, combination, inFirst, inSecond⟩ := clash
    exact ⟨sameName, combination, ⟨firstKept, inFirst⟩, secondKept, inSecond⟩
  · intro common
    obtain ⟨sameName, combination, ⟨firstKept, inFirst⟩, secondKept, inSecond⟩ := common
    exact ⟨sameName, firstKept, secondKept, combination, inFirst, inSecond⟩

theorem Clashes.symm {first second : Retained} (clash : first.Clashes second) :
    second.Clashes first := by
  rw [clashes_iff] at clash ⊢
  obtain ⟨sameName, combination, inFirst, inSecond⟩ := clash
  exact ⟨sameName.symm, combination, inSecond, inFirst⟩

/-- No two methods could answer the same send. -/
def Unambiguous (methods : List Retained) : Prop :=
  ∀ first ∈ methods, ∀ second ∈ methods, first ≠ second → ¬first.Clashes second

theorem Unambiguous.eq_of_answers {methods : List Retained} (unambiguous : Unambiguous methods)
    {first second : Retained} (isFirst : first ∈ methods) (isSecond : second ∈ methods)
    (sameName : first.name = second.name) {combination : Combination}
    (firstAnswers : first.Answers combination) (secondAnswers : second.Answers combination) :
    first = second := by
  by_contra differ
  apply unambiguous first isFirst second isSecond differ
  apply clashes_iff.mpr
  exact ⟨sameName, combination, firstAnswers, secondAnswers⟩

theorem collision?_eq_none_iff {owner : String} {methods : List Retained} {method : Retained} :
    collision? owner methods method = none ↔
      ∀ other ∈ methods, other.index < method.index → ¬other.Clashes method := by
  simp only [clashes_iff, collision?]
  split
  · rename_i skipped
    simp [Answers, skipped]
  · rename_i kept
    have answers : ∀ combination, method.Answers combination ↔
        combination ∈ method.signature.expand := by
      simp [Answers, kept]
    simp only [List.findSome?_eq_none_iff, Option.map_eq_none_iff, List.find?_eq_none,
      List.mem_filter, mem_before, decide_eq_true_eq, ← answers]
    constructor
    · intro free other inside earlier clash
      obtain ⟨sameName, combination, otherAnswers, methodAnswers⟩ := clash
      exact free combination methodAnswers other ⟨⟨inside, earlier⟩, sameName⟩ otherAnswers
    · intro free combination methodAnswers other rival otherAnswers
      exact free other rival.1.1 rival.1.2 ⟨rival.2, combination, otherAnswers, methodAnswers⟩

theorem before_append_of_le {methods : List Retained} {method later : Retained}
    (notEarlier : method.index ≤ later.index) :
    before (methods ++ [later]) method = before methods method := by
  simp [before, List.filter_append, notEarlier]

theorem before_append_self {methods : List Retained} {last : Retained}
    (earlier : ∀ other ∈ methods, other.index < last.index) :
    before (methods ++ [last]) last = methods := by
  simpa [before, List.filter_append] using earlier

theorem fresh_append_of_le {methods : List Retained} {method later : Retained}
    (notEarlier : method.index ≤ later.index) :
    fresh (methods ++ [later]) method = fresh methods method := by
  rw [fresh, fresh, before_append_of_le notEarlier]

theorem fresh_append_self {methods : List Retained} {last : Retained}
    (earlier : ∀ other ∈ methods, other.index < last.index) :
    fresh (methods ++ [last]) last =
      last.signature.expand.removeAll
        (methods.flatMap fun method => method.signature.expand) := by
  rw [fresh, before_append_self earlier]
  apply List.filter_congr
  intro combination _
  rw [List.elem_eq_mem, ← decide_not, decide_eq_decide]
  simp

end Retained

namespace Table

/-- A table is determined by its combination and its lookups. -/
theorem eq_of_find?_eq {left right : Table} (sameCombination : left.combination = right.combination)
    (same : ∀ name, left.find? name = right.find? name) : left = right := by
  obtain ⟨combination, entries⟩ := left
  cases sameCombination
  exact congrArg (Table.mk _) (NameMap.eq_of_find?_eq same)

theorem find?_ofMethods (methods : List Retained) (combination : Combination) (name : String) :
    (ofMethods methods combination).find? name =
      (methods.filter fun method => method.Answers combination).reverse.find?
        fun method => method.name = name := by
  have folded := NameMap.find?_foldl_insert Retained.name id
    (methods.filter fun method => method.Answers combination) ∅ name
  rw [NameMap.find?_empty, Option.or_none, Option.map_id_apply] at folded
  exact folded

theorem answers_of_find?_ofMethods {methods : List Retained} {combination : Combination}
    {name : String} {method : Retained}
    (found : (ofMethods methods combination).find? name = some method) :
    method ∈ methods ∧ method.name = name ∧ method.Answers combination := by
  rw [find?_ofMethods] at found
  have sameName := List.find?_some found
  have inside := List.mem_of_find?_eq_some found
  rw [List.mem_reverse, List.mem_filter, decide_eq_true_eq] at inside
  exact ⟨inside.1, by simpa using sameName, inside.2⟩

theorem exists_find?_ofMethods {methods : List Retained} {combination : Combination}
    {method : Retained} (inside : method ∈ methods) (answers : method.Answers combination) :
    ∃ found, (ofMethods methods combination).find? method.name = some found := by
  rw [find?_ofMethods, ← Option.isSome_iff_exists, List.find?_isSome]
  refine ⟨method, ?_, by simp⟩
  rw [List.mem_reverse, List.mem_filter]
  exact ⟨inside, by simpa using answers⟩

theorem find?_ofMethods_eq_some_iff {methods : List Retained}
    (unambiguous : Retained.Unambiguous methods) {combination : Combination} {name : String}
    {method : Retained} :
    (ofMethods methods combination).find? name = some method ↔
      method ∈ methods ∧ method.name = name ∧ method.Answers combination := by
  refine ⟨answers_of_find?_ofMethods, ?_⟩
  intro answering
  obtain ⟨inside, rfl, answers⟩ := answering
  obtain ⟨found, isFound⟩ := exists_find?_ofMethods inside answers
  obtain ⟨foundInside, sameName, foundAnswers⟩ := answers_of_find?_ofMethods isFound
  rw [isFound, unambiguous.eq_of_answers foundInside inside sameName foundAnswers answers]

theorem isPopulated_iff {table : Table} :
    table.IsPopulated ↔ ∃ name method, table.find? name = some method := by
  simp only [IsPopulated, find?, ← NameMap.mem_entries_iff]
  constructor
  · intro populated
    obtain ⟨⟨name, method⟩, inside⟩ := List.exists_mem_of_ne_nil _ populated
    exact ⟨name, method, inside⟩
  · intro held
    obtain ⟨name, method, inside⟩ := held
    exact List.ne_nil_of_mem inside

/-- The last method adds what the methods before it lack; theirs does not change. -/
theorem flatMap_fresh {methods : List Retained}
    (ordered : methods.Pairwise fun earlier later => earlier.index < later.index) :
    methods.flatMap (Retained.fresh methods) =
      (methods.flatMap fun method => method.signature.expand).eraseDups := by
  induction methods using List.reverseRecOn with
  | nil => rfl
  | append_singleton methods last inductionHypothesis =>
      rw [List.pairwise_append] at ordered
      obtain ⟨earlierOrdered, _, beforeLast⟩ := ordered
      have earlier : ∀ method ∈ methods, method.index < last.index := by
        intro method inside
        exact beforeLast method inside last (List.mem_singleton_self last)
      have unchanged : methods.flatMap (Retained.fresh (methods ++ [last])) =
          methods.flatMap (Retained.fresh methods) := by
        apply List.flatMap_congr
        intro method inside
        exact Retained.fresh_append_of_le (Nat.le_of_lt (earlier method inside))
      have distinct : (last.signature.expand.removeAll
          (methods.flatMap fun method => method.signature.expand)).Nodup :=
        last.signature.nodup_expand.filter _
      rw [List.flatMap_append, List.flatMap_append, List.eraseDups_append, unchanged,
        inductionHypothesis earlierOrdered]
      simp only [List.flatMap_singleton]
      rw [Retained.fresh_append_self earlier, List.eraseDups_of_nodup distinct]

theorem mem_allOfMethods_iff {methods : List Retained}
    (ordered : methods.Pairwise fun earlier later => earlier.index < later.index) {table : Table} :
    table ∈ allOfMethods methods ↔
      ∃ method ∈ methods, ∃ combination : Combination,
        combination.Instantiates method.signature ∧ ofMethods methods combination = table := by
  simp only [allOfMethods, flatMap_fresh ordered, List.mem_map, List.mem_eraseDups,
    List.mem_flatMap, Signature.mem_expand_iff]
  constructor
  · intro listed
    obtain ⟨combination, ⟨method, inside, instantiates⟩, rfl⟩ := listed
    exact ⟨method, inside, combination, instantiates, rfl⟩
  · intro listed
    obtain ⟨method, inside, combination, instantiates, rfl⟩ := listed
    exact ⟨combination, ⟨method, inside, instantiates⟩, rfl⟩

end Table

end MultiDispatch
