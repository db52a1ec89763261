import MultiDispatch.Plan.CombinationSet
import MultiDispatch.Proofs.Plan.Tables

/-!
# Runs of interning

The combinations of a set and its index are two views of one thing.  A step keeps
them in agreement, hands out the identifier under which the combination is found
from then on, and changes nothing that was found before; so after a run the
combinations stand in the order in which they first came.
-/

namespace MultiDispatch.CombinationSet

variable {set later last : CombinationSet} {combination : Combination}

/-- The index finds a combination at the place where it stands, and nowhere else. -/
def Coherent (set : CombinationSet) : Prop :=
  ∀ combination id, set.id? combination = some id ↔ set.get? id = some combination

/-- What one set gives for an identifier or a combination, the later one gives too. -/
structure Extends (set later : CombinationSet) : Prop where
  get? : ∀ id combination, set.get? id = some combination → later.get? id = some combination
  id? : ∀ combination id, set.id? combination = some id → later.id? combination = some id

theorem Extends.refl (set : CombinationSet) : set.Extends set :=
  ⟨fun _ _ => id, fun _ _ => id⟩

theorem Extends.trans (first : set.Extends later) (second : later.Extends last) :
    set.Extends last where
  get? id combination found := second.get? id combination (first.get? id combination found)
  id? combination id found := second.id? combination id (first.id? combination id found)

theorem coherent_empty : (∅ : CombinationSet).Coherent := by
  intro combination id
  simp

theorem lt_size_of_get? {id : Nat} (found : set.get? id = some combination) : id < set.size :=
  (List.getElem?_eq_some_iff.mp found).1

theorem mem_toList_iff : combination ∈ set.toList ↔ ∃ id, set.get? id = some combination :=
  List.mem_iff_getElem?

namespace Coherent

theorem exists_id?_iff (coherent : set.Coherent) :
    (∃ id, set.id? combination = some id) ↔ combination ∈ set.toList := by
  simp only [mem_toList_iff, coherent combination]

theorem add (coherent : set.Coherent) (new : set.id? combination = none) :
    (set.add combination).Coherent := by
  intro other id
  rw [id?_add, get?_add]
  by_cases same : other = combination
  · subst same
    rw [if_pos rfl]
    by_cases isLast : id = set.size
    · simp [isLast]
    · have absent : set.get? id ≠ some other := by
        intro found
        rw [← coherent, new] at found
        cases found
      simp [isLast, absent, eq_comm]
  · rw [if_neg same, coherent]
    by_cases isLast : id = set.size
    · subst isLast
      have beyond : set.get? set.size ≠ some other := by
        intro found
        exact Nat.lt_irrefl _ (lt_size_of_get? found)
      simp [beyond, Ne.symm same]
    · rw [if_neg isLast]

theorem intern (coherent : set.Coherent) (combination : Combination) :
    (set.intern combination).2.Coherent := by
  cases found : set.id? combination with
  | some id => rwa [intern_of_known found]
  | none =>
      rw [intern_of_new found]
      exact coherent.add found

end Coherent

/-- The identifier that is handed out is found from then on. -/
theorem id?_intern (set : CombinationSet) (combination : Combination) :
    (set.intern combination).2.id? combination = some (set.intern combination).1 := by
  cases found : set.id? combination with
  | some id => rwa [intern_of_known found]
  | none => rw [intern_of_new found, id?_add, if_pos rfl]

theorem extends_intern (set : CombinationSet) (combination : Combination) :
    set.Extends (set.intern combination).2 := by
  cases found : set.id? combination with
  | some id =>
      rw [intern_of_known found]
      exact .refl set
  | none =>
      rw [intern_of_new found]
      constructor
      · intro id other atPlace
        have within := lt_size_of_get? atPlace
        rwa [get?_add, if_neg (Nat.ne_of_lt within)]
      · intro other id known
        have differs : other ≠ combination := by
          rintro rfl
          rw [found] at known
          cases known
        rwa [id?_add, if_neg differs]

/-- The identifiers handed out for the combinations, one after the other, and the set in
the end. -/
def internAll (set : CombinationSet) : List Combination → List Nat × CombinationSet
  | [] => ([], set)
  | combination :: rest =>
      let (id, next) := set.intern combination
      let (ids, last) := next.internAll rest
      (id :: ids, last)

theorem internAll_cons (set : CombinationSet) (combination : Combination)
    (rest : List Combination) :
    set.internAll (combination :: rest) =
      ((set.intern combination).1 :: ((set.intern combination).2.internAll rest).1,
        ((set.intern combination).2.internAll rest).2) := rfl

theorem internAll_append (set : CombinationSet) (first second : List Combination) :
    set.internAll (first ++ second) =
      ((set.internAll first).1 ++ ((set.internAll first).2.internAll second).1,
        ((set.internAll first).2.internAll second).2) := by
  induction first generalizing set with
  | nil => rfl
  | cons combination rest inductionHypothesis =>
      rw [List.cons_append, internAll_cons, internAll_cons, inductionHypothesis,
        List.cons_append]

theorem extends_internAll (set : CombinationSet) (combinations : List Combination) :
    set.Extends (set.internAll combinations).2 := by
  induction combinations generalizing set with
  | nil => exact .refl set
  | cons combination rest inductionHypothesis =>
      exact (extends_intern set combination).trans (inductionHypothesis _)

/-- What has been interned, what was handed out for it, and what the set has come to. -/
structure Interned (combinations : List Combination) (ids : List Nat) (set : CombinationSet) :
    Prop where
  coherent : set.Coherent
  /-- The combinations stand in the order in which they first came. -/
  toList_eq : set.toList = combinations.eraseDups
  leadBack : ids.map set.get? = combinations.map some
  /-- A number is handed out for the first time when all smaller ones have been. -/
  counted : ids.eraseDups = List.range set.size

namespace Interned

variable {combinations : List Combination} {ids : List Nat}

theorem empty : Interned [] [] ∅ where
  coherent := coherent_empty
  toList_eq := rfl
  leadBack := rfl
  counted := rfl

theorem mem_ids_iff (interned : Interned combinations ids set) {id : Nat} :
    id ∈ ids ↔ id < set.size := by
  rw [← List.mem_eraseDups, interned.counted, List.mem_range]

theorem exists_id?_iff (interned : Interned combinations ids set) :
    (∃ id, set.id? combination = some id) ↔ combination ∈ combinations := by
  rw [interned.coherent.exists_id?_iff, interned.toList_eq, List.mem_eraseDups]

theorem map_get?_of_extends (interned : Interned combinations ids set)
    (isLater : set.Extends later) : ids.map later.get? = combinations.map some := by
  rw [← interned.leadBack]
  apply List.map_congr_left
  intro id inside
  have atPlace : set.get? id = some _ := List.getElem?_eq_getElem (interned.mem_ids_iff.mp inside)
  rw [atPlace]
  exact isLater.get? id _ atPlace

theorem intern (interned : Interned combinations ids set) (combination : Combination) :
    Interned (combinations ++ [combination]) (ids ++ [(set.intern combination).1])
      (set.intern combination).2 := by
  have coherent := interned.coherent.intern combination
  have leadBack : (ids ++ [(set.intern combination).1]).map (set.intern combination).2.get? =
      (combinations ++ [combination]).map some := by
    have last := (coherent _ _).mp (id?_intern set combination)
    rw [List.map_append, List.map_append, List.map_singleton, List.map_singleton, last,
      interned.map_get?_of_extends (extends_intern set combination)]
  cases found : set.id? combination with
  | some id =>
      have known : combination ∈ combinations := interned.exists_id?_iff.mp ⟨id, found⟩
      have handedOut : id ∈ ids :=
        interned.mem_ids_iff.mpr (lt_size_of_get? ((interned.coherent _ _).mp found))
      rw [intern_of_known found] at coherent leadBack ⊢
      refine ⟨coherent, ?_, leadBack, ?_⟩
      · rw [List.eraseDups_append_singleton, if_pos known, interned.toList_eq]
      · rw [List.eraseDups_append_singleton, if_pos handedOut, interned.counted]
  | none =>
      have unknown : combination ∉ combinations := by
        rw [← interned.exists_id?_iff, found]
        simp
      have unused : set.size ∉ ids := by
        rw [interned.mem_ids_iff]
        exact Nat.lt_irrefl _
      rw [intern_of_new found] at coherent leadBack ⊢
      refine ⟨coherent, ?_, leadBack, ?_⟩
      · rw [List.eraseDups_append_singleton, if_neg unknown, ← interned.toList_eq]
        rfl
      · rw [List.eraseDups_append_singleton, if_neg unused, interned.counted, size_add,
          List.range_succ]

end Interned

/-- A run from the empty set keeps everything in step. -/
theorem interned_internAll (combinations : List Combination) :
    Interned combinations (internAll ∅ combinations).1 (internAll ∅ combinations).2 := by
  induction combinations using List.reverseRecOn with
  | nil => exact .empty
  | append_singleton combinations combination inductionHypothesis =>
      rw [internAll_append]
      exact inductionHypothesis.intern combination

end MultiDispatch.CombinationSet
