import Mathlib.Data.Prod.Lex
import MultiDispatch.Proofs.Dispatch.Realization

/-!
# Resolution

A send resolves to the best candidate: of the entries that accept the types and
have a site for the name, the one with the fewest families, then the narrowest,
then the earliest.  The entry for exactly the types of a send needs no search,
because no other candidate is ever better.
-/

namespace List

universe u v

variable {α : Type u} {β : Type v}

theorem pair_sublist_of_getElem? {items : List α} {earlier later : Nat} {first second : α}
    (isFirst : items[earlier]? = some first) (isSecond : items[later]? = some second)
    (less : earlier < later) : [first, second] <+ items := by
  have inTake : first ∈ items.take later := by
    apply mem_of_getElem? (i := earlier)
    rw [getElem?_take_of_lt less]
    exact isFirst
  have inDrop : second ∈ items.drop later := by
    apply mem_of_getElem? (i := 0)
    rw [getElem?_drop]
    exact isSecond
  have together := (singleton_sublist.mpr inTake).append (singleton_sublist.mpr inDrop)
  rwa [take_append_drop] at together

theorem Nodup.not_pair_sublist_swap {items : List α} (distinct : items.Nodup) {first second : α}
    (inOrder : [first, second] <+ items) : ¬[second, first] <+ items := by
  intro swapped
  induction items with
  | nil => cases inOrder
  | cons head tail inductionHypothesis =>
      rw [nodup_cons] at distinct
      cases inOrder with
      | cons _ inTail =>
          cases swapped with
          | cons _ swappedInTail => exact inductionHypothesis distinct.2 inTail swappedInTail
          | cons_cons _ _ => exact distinct.1 (inTail.subset (mem_cons_of_mem _ mem_cons_self))
      | cons_cons _ secondInTail =>
          cases swapped with
          | cons _ swappedInTail =>
              exact distinct.1 (swappedInTail.subset (mem_cons_of_mem _ mem_cons_self))
          | cons_cons _ _ => exact distinct.1 (singleton_sublist.mp secondInTail)

/-- What a search finds first in a stably sorted list precedes all else that it
could find, and of what precedes it too it stood first. -/
theorem exists_first_of_findSome?_mergeSort {items : List α} (distinct : items.Nodup)
    {precedes : α → α → Bool}
    (transitive : ∀ first second third, precedes first second → precedes second third →
      precedes first third)
    (total : ∀ first second, precedes first second || precedes second first)
    {found? : α → Option β} {result : β}
    (found : (items.mergeSort precedes).findSome? found? = some result) :
    ∃ item ∈ items, found? item = some result ∧ ∀ other ∈ items, (found? other).isSome →
      precedes item other ∧ (precedes other item → ¬[other, item] <+ items) := by
  obtain ⟨before, item, after, split, isFound, missed⟩ := findSome?_eq_some_iff.mp found
  have sorted := pairwise_mergeSort transitive total items
  have distinctSorted : (items.mergeSort precedes).Nodup :=
    (mergeSort_perm items precedes).nodup_iff.mpr distinct
  have inSorted : ∀ other, other ∈ items ↔ other ∈ before ++ item :: after := by
    intro other
    rw [← split, mem_mergeSort]
  refine ⟨item, (inSorted item).mpr (by simp), isFound, ?_⟩
  intro other isOther otherFound
  have notBefore : other ∉ before := by
    intro inBefore
    rw [missed other inBefore] at otherFound
    cases otherFound
  have inRest := (mem_append.mp ((inSorted other).mp isOther)).resolve_left notBefore
  rcases List.mem_cons.mp inRest with rfl | later
  · constructor
    · simpa using total other other
    · intro _ twice
      exact absurd (distinct.sublist twice) (by simp)
  · have inOrder : [item, other] <+ items.mergeSort precedes := by
      rw [split]
      apply sublist_append_of_sublist_right
      exact (singleton_sublist.mpr later).cons_cons item
    constructor
    · exact sorted.forall_sublist inOrder
    · -- The sort is stable, so it would have kept the other one in front.
      intro alsoPrecedes stoodBefore
      apply distinctSorted.not_pair_sublist_swap inOrder
      exact pair_sublist_mergeSort transitive total alsoPrecedes stoodBefore

end List

namespace MultiDispatch

variable {ρ ε : Type}

namespace DispatchEntry

/-- Fewer families come first, then narrower ones, then earlier entries. -/
def priority (entry : DispatchEntry ρ ε) (place : Nat) : Nat ×ₗ Nat ×ₗ Nat :=
  toLex (entry.combination.abstractPositions, toLex (entry.combination.breadth, place))

theorem precedes_iff {left right : DispatchEntry ρ ε} :
    left.precedes right ↔
      left.combination.abstractPositions < right.combination.abstractPositions ∨
        left.combination.abstractPositions = right.combination.abstractPositions ∧
          left.combination.breadth ≤ right.combination.breadth := by
  rw [precedes, compareLex, Ordering.isLE_then_iff_or]
  simp only [compareOn, Nat.compare_eq_lt, Nat.compare_eq_eq, Nat.isLE_compare]

theorem precedes_trans (first second third : DispatchEntry ρ ε) (before : first.precedes second)
    (after : second.precedes third) : first.precedes third := by
  rw [precedes_iff] at before after ⊢
  omega

theorem precedes_total (left right : DispatchEntry ρ ε) :
    left.precedes right || right.precedes left := by
  rw [Bool.or_eq_true, precedes_iff, precedes_iff]
  omega

theorem priority_le_iff {entry other : DispatchEntry ρ ε} {place otherPlace : Nat} :
    entry.priority place ≤ other.priority otherPlace ↔
      entry.precedes other ∧ (other.precedes entry → place ≤ otherPlace) := by
  simp only [priority, Prod.Lex.toLex_le_toLex, precedes_iff]
  omega

end DispatchEntry

namespace Dispatcher

variable {dispatcher : Dispatcher ρ ε} {name : String} {types : List Ty}

/-- The entry at the place accepts the types and has a site for the name. -/
def IsCandidate (dispatcher : Dispatcher ρ ε) (name : String) (types : List Ty) (place : Nat)
    (entry : DispatchEntry ρ ε) : Prop :=
  dispatcher.entries[place]? = some entry ∧ entry.combination.Accepts types ∧
    (entry.site? name).isSome

/-- A candidate that no other has priority over. -/
structure IsBest (dispatcher : Dispatcher ρ ε) (name : String) (types : List Ty) (place : Nat)
    (entry : DispatchEntry ρ ε) : Prop where
  candidate : dispatcher.IsCandidate name types place entry
  least : ∀ otherPlace other, dispatcher.IsCandidate name types otherPlace other →
    entry.priority place ≤ other.priority otherPlace

theorem IsBest.unique {place otherPlace : Nat} {entry other : DispatchEntry ρ ε}
    (best : dispatcher.IsBest name types place entry)
    (otherBest : dispatcher.IsBest name types otherPlace other) : entry = other := by
  have forward := best.least otherPlace other otherBest.candidate
  have backward := otherBest.least place entry best.candidate
  rw [DispatchEntry.priority_le_iff] at forward backward
  have samePlace : place = otherPlace :=
    Nat.le_antisymm (forward.2 backward.1) (backward.2 forward.1)
  apply Option.some.inj
  rw [← best.candidate.1, ← otherBest.candidate.1, samePlace]

theorem mem_byFamily_iff {entry : DispatchEntry ρ ε} :
    entry ∈ dispatcher.byFamily types ↔
      entry ∈ dispatcher.entries ∧ entry.combination.types ≠ types ∧
        entry.combination.Accepts types := by
  rw [byFamily, List.mem_mergeSort, List.mem_filter, decide_eq_true_eq]

section

variable (distinct : (dispatcher.entries.map (·.combination)).Nodup)
include distinct

theorem place_eq_of_combination_eq {place otherPlace : Nat} {entry other : DispatchEntry ρ ε}
    (isEntry : dispatcher.entries[place]? = some entry)
    (isOther : dispatcher.entries[otherPlace]? = some other)
    (same : entry.combination = other.combination) : place = otherPlace := by
  have inside := (List.getElem?_eq_some_iff.mp isEntry).1
  apply (List.getElem?_inj ?_ distinct).mp
  · rw [List.getElem?_map, List.getElem?_map, isEntry, isOther, Option.map_some, Option.map_some,
      same]
  · rwa [List.length_map]

theorem entry?_eq_some_iff {entry : DispatchEntry ρ ε} :
    dispatcher.entry? types = some entry ↔
      entry ∈ dispatcher.entries ∧ entry.combination.types = types := by
  have distinctTypes := distinct.map fun _ _ => Combination.eq_of_types_eq
  rw [List.map_map] at distinctTypes
  exact List.find?_eq_some_iff_of_nodup_map distinctTypes

theorem resolve_of_exact {entry : DispatchEntry ρ ε} (isEntry : entry ∈ dispatcher.entries)
    (sameTypes : entry.combination.types = types) {site : CallSite ρ ε}
    (isSite : entry.site? name = some site) : dispatcher.resolve name types = some site := by
  have found := (entry?_eq_some_iff distinct).mpr ⟨isEntry, sameTypes⟩
  rw [resolve, found, Option.bind_some, isSite, Option.some_or]

/-- No candidate has priority over the entry for exactly the types. -/
theorem isBest_of_entry? {entry : DispatchEntry ρ ε}
    (exact : dispatcher.entry? types = some entry) (answers : (entry.site? name).isSome) :
    ∃ place, dispatcher.IsBest name types place entry := by
  obtain ⟨inside, rfl⟩ := (entry?_eq_some_iff distinct).mp exact
  obtain ⟨place, isEntry⟩ := List.mem_iff_getElem?.mp inside
  refine ⟨place, ⟨isEntry, Combination.accepts_refl _, answers⟩, ?_⟩
  intro otherPlace other candidate
  obtain ⟨isOther, accepts, _⟩ := candidate
  rw [DispatchEntry.priority_le_iff, DispatchEntry.precedes_iff, DispatchEntry.precedes_iff]
  by_cases same : other.combination.types = entry.combination.types
  · have samePlace := place_eq_of_combination_eq distinct isOther isEntry
      (Combination.eq_of_types_eq same)
    rw [Combination.eq_of_types_eq same, samePlace]
    simp
  · have fewer := accepts.abstractPositions_le
    have narrower := accepts.breadth_lt_of_ne same
    change entry.combination.abstractPositions ≤ _ at fewer
    change entry.combination.breadth < _ at narrower
    omega

/-- Without a site at exactly the types every candidate is reached by a family. -/
theorem mem_byFamily_of_isCandidate
    (noExact : (dispatcher.entry? types).bind (·.site? name) = none) {place : Nat}
    {entry : DispatchEntry ρ ε} (candidate : dispatcher.IsCandidate name types place entry) :
    entry ∈ dispatcher.byFamily types := by
  obtain ⟨isEntry, accepts, answers⟩ := candidate
  have inside := List.mem_of_getElem? isEntry
  apply mem_byFamily_iff.mpr
  refine ⟨inside, ?_, accepts⟩
  intro sameTypes
  have found := (entry?_eq_some_iff distinct).mpr ⟨inside, sameTypes⟩
  rw [found, Option.bind_some] at noExact
  rw [noExact] at answers
  cases answers

theorem isBest_of_byFamily {site : CallSite ρ ε}
    (noExact : (dispatcher.entry? types).bind (·.site? name) = none)
    (found : (dispatcher.byFamily types).findSome? (·.site? name) = some site) :
    ∃ place entry, dispatcher.IsBest name types place entry ∧ entry.site? name = some site := by
  have distinctEntries : dispatcher.entries.Nodup := .of_map _ distinct
  obtain ⟨entry, inside, isSite, first⟩ := List.exists_first_of_findSome?_mergeSort
    (distinctEntries.filter _) DispatchEntry.precedes_trans DispatchEntry.precedes_total found
  obtain ⟨place, isEntry⟩ := List.mem_iff_getElem?.mp (List.mem_of_mem_filter inside)
  obtain ⟨_, _, accepts⟩ := mem_byFamily_iff.mp (List.mem_mergeSort.mpr inside)
  refine ⟨place, entry, ⟨⟨isEntry, accepts, by simp [isSite]⟩, ?_⟩, isSite⟩
  intro otherPlace other candidate
  have otherInside := List.mem_mergeSort.mp (mem_byFamily_of_isCandidate distinct noExact candidate)
  obtain ⟨precedes, notBefore⟩ := first other otherInside candidate.2.2
  rw [DispatchEntry.priority_le_iff]
  refine ⟨precedes, fun otherPrecedes => ?_⟩
  by_contra earlier
  apply notBefore otherPrecedes
  -- The filter leaves the order of the entries as it is.
  have kept := (List.pair_sublist_of_getElem? candidate.1 isEntry (by omega)).filter
    fun entry => entry.combination.types ≠ types ∧ entry.combination.Accepts types
  rwa [List.filter_eq_self.mpr] at kept
  intro member inPair
  rcases List.mem_pair.mp inPair with rfl | rfl
  · exact (List.mem_filter.mp otherInside).2
  · exact (List.mem_filter.mp inside).2

theorem exists_isBest_of_resolve {site : CallSite ρ ε}
    (resolves : dispatcher.resolve name types = some site) :
    ∃ place entry, dispatcher.IsBest name types place entry ∧ entry.site? name = some site := by
  rcases Option.or_eq_some_iff.mp resolves with exact | ⟨noExact, found⟩
  · obtain ⟨entry, isEntry, isSite⟩ := Option.bind_eq_some_iff.mp exact
    have answers : (entry.site? name).isSome := by simp [isSite]
    obtain ⟨place, best⟩ := isBest_of_entry? distinct isEntry answers
    exact ⟨place, entry, best, isSite⟩
  · exact isBest_of_byFamily distinct noExact found

theorem not_isCandidate_of_resolve_eq_none (misses : dispatcher.resolve name types = none)
    (place : Nat) (entry : DispatchEntry ρ ε) :
    ¬dispatcher.IsCandidate name types place entry := by
  intro candidate
  obtain ⟨noExact, notFound⟩ := Option.or_eq_none_iff.mp misses
  have absent := List.findSome?_eq_none_iff.mp notFound entry
    (mem_byFamily_of_isCandidate distinct noExact candidate)
  have answers := candidate.2.2
  rw [absent] at answers
  cases answers

theorem resolve_of_isBest {place : Nat} {entry : DispatchEntry ρ ε}
    (best : dispatcher.IsBest name types place entry) {site : CallSite ρ ε}
    (isSite : entry.site? name = some site) : dispatcher.resolve name types = some site := by
  cases resolves : dispatcher.resolve name types with
  | none => exact absurd best.candidate (not_isCandidate_of_resolve_eq_none distinct resolves _ _)
  | some chosen =>
      obtain ⟨_, _, chosenBest, isChosen⟩ := exists_isBest_of_resolve distinct resolves
      rw [chosenBest.unique best, isSite] at isChosen
      exact isChosen.symm

end

/-- The entry for exactly the types of a send is only a shortcut: a send resolves to
the site of the best candidate, and misses when there is none. -/
theorem resolve_eq_best_candidate {decl : TypeDecl} {options : CompileOptions}
    {compiled : Compiled} {handlers : List (Method ρ ε)}
    (compiles : decl.compile options = .ok compiled)
    (realized : ofPlan compiled.plan handlers = .ok dispatcher) (name : String)
    (types : List Ty) :
    (∀ site, dispatcher.resolve name types = some site ↔
      ∃ place entry, dispatcher.IsBest name types place entry ∧
        entry.site? name = some site) ∧
      (dispatcher.resolve name types = none ↔
        ∀ place entry, ¬dispatcher.IsCandidate name types place entry) := by
  have distinct := (realizes_of_compile compiles realized).nodup_combinations
  constructor
  · intro site
    refine ⟨exists_isBest_of_resolve distinct, ?_⟩
    intro selected
    obtain ⟨place, entry, best, isSite⟩ := selected
    exact resolve_of_isBest distinct best isSite
  · refine ⟨not_isCandidate_of_resolve_eq_none distinct, ?_⟩
    intro noCandidate
    rw [Option.eq_none_iff_forall_ne_some]
    intro site resolves
    obtain ⟨place, entry, best, _⟩ := exists_isBest_of_resolve distinct resolves
    exact noCandidate place entry best.candidate

/-- Of the two methods that could draw at a whole number it is the narrower one. -/
theorem resolve_eq_best_candidate_canvas :
    ∃ compiled dispatcher,
      TypeDecl.canvas.compile {} = .ok compiled ∧
      ofPlan compiled.plan (List.replicate 5 fun _ => pure none : List (Method Unit Unit)) =
        .ok dispatcher ∧
      ∃ site place entry, site.combination = ⟨[.scalar (.signed .w32)]⟩ ∧
        dispatcher.IsBest "draw" [.scalar (.signed .w32)] place entry ∧
        entry.site? "draw" = some site := by
  have compiles : TypeDecl.canvas.compile {} = .ok ⟨TypeDecl.canvas.plan {}, _⟩ := rfl
  have realized : ofPlan (TypeDecl.canvas.plan {})
      (List.replicate 5 fun _ => pure none : List (Method Unit Unit)) = .ok _ := rfl
  obtain ⟨resolves, _⟩ :=
    resolve_eq_best_candidate compiles realized "draw" [.scalar (.signed .w32)]
  obtain ⟨place, entry, best, isSite⟩ := (resolves _).mp rfl
  exact ⟨_, _, compiles, realized, _, place, entry, rfl, best, isSite⟩

end Dispatcher

end MultiDispatch
