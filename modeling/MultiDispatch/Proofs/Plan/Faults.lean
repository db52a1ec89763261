import MultiDispatch.Proofs.Plan.Options
import MultiDispatch.Proofs.Signature.Odometer

/-!
# The first fault

A compilation that fails reports one fault, and which one is said here without
reference to the checks: oversized expansions come before clashes and clashes before
arguments without storage, and of each kind it is the first in the order of the
declaration, of the combinations or of the names.
-/

namespace List

universe u v w

/-- In a list that increases by a key, the first hit of a search is the one with the
least key. -/
theorem findSome?_eq_some_iff_of_increasing {α : Type u} {β : Type v} {κ : Type w} [Ord κ]
    [Std.OrientedOrd κ] (key : α → κ) {items : List α}
    (increasing : items.Pairwise fun earlier later => compare (key earlier) (key later) = .lt)
    {found? : α → Option β} {result : β} :
    items.findSome? found? = some result ↔
      ∃ item ∈ items, found? item = some result ∧
        ∀ other ∈ items, (found? other).isSome → (compare (key item) (key other)).isLE := by
  rw [findSome?_eq_some_iff]
  constructor
  · intro split
    rcases split with ⟨before, item, after, rfl, isFound, missed⟩
    refine ⟨item, by simp, isFound, ?_⟩
    intro other inside otherFound
    rcases mem_append.mp inside with earlier | notEarlier
    · rw [missed other earlier] at otherFound
      cases otherFound
    · rcases mem_cons.mp notEarlier with rfl | later
      · rw [Std.ReflOrd.compare_self]
        rfl
      · rw [pairwise_append, pairwise_cons] at increasing
        rw [increasing.2.1.1 other later]
        rfl
  · intro least
    rcases least with ⟨item, inside, isFound, notLater⟩
    rcases append_of_mem inside with ⟨before, after, rfl⟩
    refine ⟨before, item, after, rfl, isFound, ?_⟩
    intro other earlier
    by_contra hit
    have less := (pairwise_append.mp increasing).2.2 other earlier item mem_cons_self
    apply Std.OrientedCmp.not_isLE_of_lt less
    exact notLater other (mem_append_left _ earlier) (Option.isSome_iff_ne_none.mpr hit)

end List

namespace MultiDispatch

instance : Std.OrientedOrd Combination where
  eq_swap {left right} := Std.OrientedOrd.eq_swap (a := left.types) (b := right.types)

namespace Retained

/-- The rival is declared before the method and both answer at the combination under
one name. -/
structure Shares (methods : List Retained) (method rival : Retained) (combination : Combination) :
    Prop where
  inside : rival ∈ methods
  earlier : rival.index < method.index
  sameName : rival.name = method.name
  rivalAnswers : rival.Answers combination
  answers : method.Answers combination

variable {methods : List Retained} {method rival : Retained} {combination : Combination}

theorem exists_shares_iff_clashes :
    (∃ combination, method.Shares methods rival combination) ↔
      rival ∈ methods ∧ rival.index < method.index ∧ rival.Clashes method := by
  rw [clashes_iff]
  constructor
  · intro shared
    rcases shared with ⟨combination, shares⟩
    exact ⟨shares.inside, shares.earlier, shares.sameName, combination, shares.rivalAnswers,
      shares.answers⟩
  · intro clash
    rcases clash with ⟨inside, earlier, sameName, combination, rivalAnswers, answers⟩
    exact ⟨combination, inside, earlier, sameName, rivalAnswers, answers⟩

/-- The first of the methods that share the combination. -/
def rival? (methods : List Retained) (method : Retained) (combination : Combination) :
    Option Retained :=
  ((before methods method).filter fun other => other.name = method.name).find? fun other =>
    other.Answers combination

theorem collision?_of_kept {owner : String} (kept : method.skip = false) :
    collision? owner methods method =
      method.signature.expand.findSome? fun combination =>
        (rival? methods method combination).map fun other =>
          .collision owner method.name combination other.signature method.signature := by
  rw [collision?, kept, if_neg Bool.false_ne_true]
  rfl

theorem shares_of_rival? (answers : method.Answers combination)
    (found : rival? methods method combination = some rival) :
    method.Shares methods rival combination := by
  have isRival := List.mem_of_find?_eq_some found
  rw [List.mem_filter, mem_before, decide_eq_true_eq] at isRival
  rcases isRival with ⟨⟨inside, earlier⟩, sameName⟩
  exact ⟨inside, earlier, sameName, by simpa using List.find?_some found, answers⟩

theorem exists_rival?_of_shares (shares : method.Shares methods rival combination) :
    ∃ first, rival? methods method combination = some first := by
  rw [← Option.isSome_iff_exists, rival?, List.find?_isSome]
  refine ⟨rival, ?_, by simpa using shares.rivalAnswers⟩
  rw [List.mem_filter, mem_before, decide_eq_true_eq]
  exact ⟨⟨shares.inside, shares.earlier⟩, shares.sameName⟩

/-- Where no combination is shared with two methods, what is reported is the least one
that is shared at all. -/
theorem collision?_eq_some_iff {owner : String}
    (unique : ∀ combination first second, method.Shares methods first combination →
      method.Shares methods second combination → first = second) {fault : ConfigurationError} :
    collision? owner methods method = some fault ↔
      ∃ first combination, method.Shares methods first combination ∧
        (∀ rival shared, method.Shares methods rival shared →
          (compare combination shared).isLE) ∧
        fault = .collision owner method.name combination first.signature method.signature := by
  constructor
  · intro collides
    have kept : method.skip = false := by
      by_contra skipped
      rw [collision?, if_pos (by simpa using skipped)] at collides
      cases collides
    rw [collision?_of_kept kept, List.findSome?_eq_some_iff_of_increasing id
      method.signature.pairwise_expand] at collides
    rcases collides with ⟨combination, inside, reported, least⟩
    rcases Option.map_eq_some_iff.mp reported with ⟨first, found, rfl⟩
    have answers : method.Answers combination := ⟨kept, Signature.mem_expand_iff.mp inside⟩
    refine ⟨first, combination, shares_of_rival? answers found, ?_, rfl⟩
    intro rival shared shares
    apply least shared (Signature.mem_expand_iff.mpr shares.answers.2)
    rcases exists_rival?_of_shares shares with ⟨other, isOther⟩
    rw [isOther]
    rfl
  · intro shared
    rcases shared with ⟨first, combination, shares, least, rfl⟩
    rw [collision?_of_kept shares.answers.1, List.findSome?_eq_some_iff_of_increasing id
      method.signature.pairwise_expand]
    refine ⟨combination, Signature.mem_expand_iff.mpr shares.answers.2, ?_, ?_⟩
    · rcases exists_rival?_of_shares shares with ⟨other, isOther⟩
      have same := unique combination other first (shares_of_rival? shares.answers isOther) shares
      rw [isOther, same]
      rfl
    · intro other inside reported
      rw [Option.isSome_map] at reported
      rcases Option.isSome_iff_exists.mp reported with ⟨rival, found⟩
      have answers : method.Answers other :=
        ⟨shares.answers.1, Signature.mem_expand_iff.mp inside⟩
      exact least rival other (shares_of_rival? answers found)

end Retained

namespace TypeDecl

variable {decl : TypeDecl} {options : CompileOptions} {fault : ConfigurationError}

/-- A search through the retained methods finds what it finds at the one declared first. -/
theorem findSome?_retained_eq_some_iff {α : Type} {found? : Retained → Option α} {result : α} :
    decl.retained.findSome? found? = some result ↔
      ∃ method ∈ decl.retained, found? method = some result ∧
        ∀ other ∈ decl.retained, (found? other).isSome → method.index ≤ other.index := by
  have increasing : decl.retained.Pairwise fun earlier later =>
      compare earlier.index later.index = .lt := by
    simp only [Nat.compare_eq_lt]
    exact decl.pairwise_index_retained
  rw [List.findSome?_eq_some_iff_of_increasing Retained.index increasing]
  simp only [Nat.isLE_compare]

/-- The first method that expands to more combinations than the limit. -/
structure FirstOversized (decl : TypeDecl) (limit : Nat) (method : Retained) : Prop where
  inside : method ∈ decl.retained
  exceeds : limit < method.signature.count
  earliest : ∀ other ∈ decl.retained, limit < other.signature.count →
    method.index ≤ other.index

theorem head?_limitFaults_eq_some_iff :
    (decl.retained.filterMap (decl.limitFault? options)).head? = some fault ↔
      ∃ limit ∈ options.maxCombinations, ∃ method, decl.FirstOversized limit method ∧
        fault = .combinationLimit decl.name method.name method.signature.count limit := by
  rw [List.head?_filterMap, findSome?_retained_eq_some_iff]
  simp only [limitFault?_eq_some_iff, Option.isSome_iff_exists]
  constructor
  · intro first
    rcases first with ⟨method, inside, ⟨limit, isLimit, exceeds, rfl⟩, earliest⟩
    refine ⟨limit, isLimit, method, ⟨inside, exceeds, ?_⟩, rfl⟩
    intro other otherInside otherExceeds
    exact earliest other otherInside ⟨_, limit, isLimit, otherExceeds, rfl⟩
  · intro first
    rcases first with ⟨limit, isLimit, method, oversized, rfl⟩
    refine ⟨method, oversized.inside, ⟨limit, isLimit, oversized.exceeds, rfl⟩, ?_⟩
    intro other otherInside otherFault
    rcases otherFault with ⟨_, otherLimit, isOtherLimit, otherExceeds, _⟩
    cases Option.mem_unique isLimit isOtherLimit
    exact oversized.earliest other otherInside otherExceeds

/-- The first method that clashes with an earlier one, the least combination at which it
does, and the one earlier method that answers there. -/
structure FirstClash (decl : TypeDecl) (first second : Retained) (combination : Combination) :
    Prop where
  inside : second ∈ decl.retained
  shares : second.Shares decl.retained first combination
  earliest : ∀ other ∈ decl.retained, ∀ rival shared, other.Shares decl.retained rival shared →
    second.index ≤ other.index
  least : ∀ rival shared, second.Shares decl.retained rival shared →
    (compare combination shared).isLE
  unique : ∀ rival, second.Shares decl.retained rival combination → rival = first

/-- Two methods that share a combination with a third one clash themselves. -/
theorem eq_of_shares {method first second : Retained} {combination : Combination}
    (earliest : ∀ other ∈ decl.retained, ∀ rival shared,
      other.Shares decl.retained rival shared → method.index ≤ other.index)
    (sharesFirst : method.Shares decl.retained first combination)
    (sharesSecond : method.Shares decl.retained second combination) : first = second := by
  have sameName := sharesFirst.sameName.trans sharesSecond.sameName.symm
  rcases Nat.lt_trichotomy first.index second.index with less | same | greater
  · have notEarlier := earliest second sharesSecond.inside first combination
      ⟨sharesFirst.inside, less, sameName, sharesFirst.rivalAnswers, sharesSecond.rivalAnswers⟩
    exact absurd sharesSecond.earlier (Nat.not_lt_of_le notEarlier)
  · exact eq_of_index_eq sharesFirst.inside sharesSecond.inside same
  · have notEarlier := earliest first sharesFirst.inside second combination
      ⟨sharesSecond.inside, greater, sameName.symm, sharesSecond.rivalAnswers,
        sharesFirst.rivalAnswers⟩
    exact absurd sharesFirst.earlier (Nat.not_lt_of_le notEarlier)

theorem isSome_collision?_iff {method : Retained} :
    (Retained.collision? decl.name decl.retained method).isSome ↔
      ∃ rival combination, method.Shares decl.retained rival combination := by
  simp only [Option.isSome_iff_ne_none, ne_eq, Retained.collision?_eq_none_iff,
    Retained.exists_shares_iff_clashes]
  push Not
  rfl

theorem head?_collisions_eq_some_iff :
    (decl.retained.filterMap (Retained.collision? decl.name decl.retained)).head? = some fault ↔
      ∃ first second combination, decl.FirstClash first second combination ∧
        fault = .collision decl.name second.name combination first.signature
          second.signature := by
  rw [List.head?_filterMap, findSome?_retained_eq_some_iff]
  constructor
  · intro found
    rcases found with ⟨second, inside, isFault, earliest⟩
    have noneBefore : ∀ other ∈ decl.retained, ∀ rival shared,
        other.Shares decl.retained rival shared → second.index ≤ other.index := by
      intro other otherInside rival shared shares
      exact earliest other otherInside (isSome_collision?_iff.mpr ⟨rival, shared, shares⟩)
    have unique : ∀ combination first other, second.Shares decl.retained first combination →
        second.Shares decl.retained other combination → first = other := by
      intro combination first other sharesFirst sharesOther
      exact eq_of_shares noneBefore sharesFirst sharesOther
    rcases (Retained.collision?_eq_some_iff unique).mp isFault with
      ⟨first, combination, shares, least, rfl⟩
    refine ⟨first, second, combination, ⟨inside, shares, noneBefore, least, ?_⟩, rfl⟩
    intro rival sharesRival
    exact unique combination rival first sharesRival shares
  · intro clash
    rcases clash with ⟨first, second, combination, ⟨inside, shares, earliest, least, _⟩, rfl⟩
    refine ⟨second, inside, ?_, ?_⟩
    · apply (Retained.collision?_eq_some_iff ?_).mpr
      · exact ⟨first, combination, shares, least, rfl⟩
      · intro shared rival other sharesRival sharesOther
        exact eq_of_shares earliest sharesRival sharesOther
    · intro other otherInside collides
      rcases isSome_collision?_iff.mp collides with ⟨rival, shared, sharesRival⟩
      exact earliest other otherInside rival shared sharesRival

/-- A record stores the arguments of the method at the combination. -/
structure Stores (decl : TypeDecl) (options : CompileOptions) (method : Retained)
    (combination : Combination) : Prop where
  inside : method ∈ decl.retained
  answers : method.Answers combination
  valueObject : decl.resolvedStrategy options method = .valueObject

/-- The first combination with an abstract type at which a record would store its
arguments, the least name of a method with such a record, and the leftmost such type. -/
structure FirstUnstorable (decl : TypeDecl) (options : CompileOptions) (method : Retained)
    (ty : Ty) (combination : Combination) : Prop where
  stores : decl.Stores options method combination
  leftmost : combination.types.find? (fun ty => ty.IsAbstract) = some ty
  least : ∀ other, decl.Stores options other combination →
    (compare method.name other.name).isLE
  /-- Whatever a record has to store at a combination seen before has storage. -/
  first : ∃ seen unseen,
    (decl.retained.flatMap fun method => method.signature.expand).eraseDups =
        seen ++ combination :: unseen ∧
      ∀ other ∈ seen, ∀ method, decl.Stores options method other →
        ∀ ty ∈ other.types, ¬ty.IsAbstract

theorem storageFault?_eq_some_iff {plan : Plan} {table : Table} {method : Retained} :
    plan.storageFault? table method = some fault ↔
      plan.strategyOf method = .valueObject ∧
        ∃ ty, table.combination.types.find? (fun ty => ty.IsAbstract) = some ty ∧
          fault = .unstorable plan.owner method.name ty table.combination := by
  simp only [← Combination.layout_eq_error_iff, Plan.storageFault?]
  split
  · rename_i ty valueObject noLayout
    simp [valueObject, noLayout, eq_comm]
  · rename_i other
    constructor
    · intro impossible
      cases impossible
    · intro unstorable
      rcases unstorable with ⟨valueObject, ty, noLayout, _⟩
      exact absurd noLayout (other ty valueObject)

theorem increasing_values_ofMethods (methods : List Retained) (combination : Combination) :
    (Table.ofMethods methods combination).entries.values.Pairwise fun earlier later =>
      compare earlier.name later.name = .lt := by
  have named : ∀ entry ∈ (Table.ofMethods methods combination).entries.entries,
      entry.2.name = entry.1 := by
    intro entry inside
    exact (Table.answers_of_find?_ofMethods (NameMap.mem_entries_iff.mp inside)).2.1
  rw [NameMap.values, List.pairwise_map]
  apply (Table.ofMethods methods combination).entries.increasing.imp_of_mem
  intro earlier later isEarlier isLater less
  rwa [named earlier isEarlier, named later isLater]

/-- The methods of a table whose arguments are stored are those that store there. -/
theorem stores_iff_mem_values (unambiguous : Retained.Unambiguous decl.retained)
    {method : Retained} {combination : Combination} :
    decl.Stores options method combination ↔
      method ∈ (Table.ofMethods decl.retained combination).entries.values ∧
        (decl.plan options).strategyOf method = .valueObject := by
  rw [NameMap.mem_values_iff]
  constructor
  · intro stores
    refine ⟨⟨method.name, ?_⟩, ?_⟩
    · apply (Table.find?_ofMethods_eq_some_iff unambiguous).mpr
      exact ⟨stores.inside, rfl, stores.answers⟩
    · rw [strategyOf_plan stores.answers.1, stores.valueObject]
  · intro held
    rcases held with ⟨⟨name, found⟩, valueObject⟩
    rcases Table.answers_of_find?_ofMethods found with ⟨inside, _, answers⟩
    rw [strategyOf_plan answers.1] at valueObject
    exact ⟨inside, answers, valueObject⟩

/-- The first storage fault of the table at the combination. -/
def firstStorageFault? (decl : TypeDecl) (options : CompileOptions) (combination : Combination) :
    Option ConfigurationError :=
  let table := Table.ofMethods decl.retained combination
  table.entries.values.findSome? ((decl.plan options).storageFault? table)

theorem head?_storageFaults :
    (decl.plan options).storageFaults.head? =
      (decl.retained.flatMap fun method => method.signature.expand).eraseDups.findSome?
        (decl.firstStorageFault? options) := by
  rw [← Table.flatMap_fresh decl.pairwise_index_retained, Plan.storageFaults, plan,
    Table.allOfMethods, List.head?_flatMap, List.findSome?_map]
  simp only [List.head?_filterMap]
  rfl

theorem firstStorageFault?_eq_none_iff (unambiguous : Retained.Unambiguous decl.retained)
    {combination : Combination} :
    decl.firstStorageFault? options combination = none ↔
      ∀ method, decl.Stores options method combination →
        ∀ ty ∈ combination.types, ¬ty.IsAbstract := by
  simp only [firstStorageFault?, List.findSome?_eq_none_iff, storageFault?_eq_none_iff,
    stores_iff_mem_values unambiguous, and_imp, Table.combination_ofMethods]

theorem firstStorageFault?_eq_some_iff (unambiguous : Retained.Unambiguous decl.retained)
    {combination : Combination} :
    decl.firstStorageFault? options combination = some fault ↔
      ∃ method ty, decl.Stores options method combination ∧
        combination.types.find? (fun ty => ty.IsAbstract) = some ty ∧
        (∀ other, decl.Stores options other combination →
          (compare method.name other.name).isLE) ∧
        fault = .unstorable decl.name method.name ty combination := by
  rw [firstStorageFault?, List.findSome?_eq_some_iff_of_increasing Retained.name
    (increasing_values_ofMethods decl.retained combination)]
  simp only [Option.isSome_iff_exists, storageFault?_eq_some_iff, Table.combination_ofMethods,
    stores_iff_mem_values unambiguous]
  constructor
  · intro found
    rcases found with ⟨method, held, ⟨valueObject, ty, leftmost, rfl⟩, least⟩
    refine ⟨method, ty, ⟨held, valueObject⟩, leftmost, ?_, rfl⟩
    intro other stores
    exact least other stores.1 ⟨_, stores.2, ty, leftmost, rfl⟩
  · intro unstorable
    rcases unstorable with ⟨method, ty, ⟨held, valueObject⟩, leftmost, least, rfl⟩
    refine ⟨method, held, ⟨valueObject, ty, leftmost, rfl⟩, ?_⟩
    intro other otherHeld otherFault
    rcases otherFault with ⟨_, otherValueObject, _⟩
    exact least other ⟨otherHeld, otherValueObject⟩

theorem head?_storageFaults_eq_some_iff (unambiguous : Retained.Unambiguous decl.retained) :
    (decl.plan options).storageFaults.head? = some fault ↔
      ∃ method ty combination, decl.FirstUnstorable options method ty combination ∧
        fault = .unstorable decl.name method.name ty combination := by
  simp only [head?_storageFaults, List.findSome?_eq_some_iff,
    firstStorageFault?_eq_some_iff unambiguous, firstStorageFault?_eq_none_iff unambiguous]
  constructor
  · intro found
    rcases found with ⟨seen, combination, unseen, split, isFault, free⟩
    rcases isFault with ⟨method, ty, stores, leftmost, least, rfl⟩
    exact ⟨method, ty, combination, ⟨stores, leftmost, least, seen, unseen, split, free⟩, rfl⟩
  · intro first
    rcases first with ⟨method, ty, combination, ⟨stores, leftmost, least, first⟩, rfl⟩
    rcases first with ⟨seen, unseen, split, free⟩
    exact ⟨seen, combination, unseen, split, ⟨method, ty, stores, leftmost, least, rfl⟩, free⟩

/-- The faults that a compilation can report, each with what makes it the one to report. -/
inductive Reports (decl : TypeDecl) (options : CompileOptions) : ConfigurationError → Prop where
  | combinationLimit {limit : Nat} {method : Retained} (isLimit : limit ∈ options.maxCombinations)
      (first : decl.FirstOversized limit method) :
      Reports decl options
        (.combinationLimit decl.name method.name method.signature.count limit)
  | collision {first second : Retained} {combination : Combination}
      (withinLimit : ∀ method ∈ decl.retained, ∀ limit ∈ options.maxCombinations,
        method.signature.count ≤ limit)
      (clash : decl.FirstClash first second combination) :
      Reports decl options
        (.collision decl.name second.name combination first.signature second.signature)
  | unstorable {method : Retained} {ty : Ty} {combination : Combination}
      (withinLimit : ∀ method ∈ decl.retained, ∀ limit ∈ options.maxCombinations,
        method.signature.count ≤ limit)
      (unambiguous : Retained.Unambiguous decl.retained)
      (first : decl.FirstUnstorable options method ty combination) :
      Reports decl options (.unstorable decl.name method.name ty combination)

/-- A compilation fails with the first fault there is: with an oversized expansion if
there is any, else with a clash if there is any, else with an argument that a record
cannot store. -/
theorem first_fault_is_reported (decl : TypeDecl) (options : CompileOptions)
    (fault : ConfigurationError) :
    decl.compile options = .error fault ↔ decl.Reports options fault := by
  rw [compile_eq_error_iff, head?_limitFaults_eq_some_iff, head?_collisions_eq_some_iff,
    limitFaults_eq_nil_iff, collisions_eq_nil_iff]
  constructor
  · intro fails
    rcases fails with oversized | ⟨withinLimit, clash | ⟨unambiguous, unstorable⟩⟩
    · rcases oversized with ⟨limit, isLimit, method, first, rfl⟩
      exact .combinationLimit isLimit first
    · rcases clash with ⟨first, second, combination, clash, rfl⟩
      exact .collision withinLimit clash
    · rcases (head?_storageFaults_eq_some_iff unambiguous).mp unstorable with
        ⟨method, ty, combination, first, rfl⟩
      exact .unstorable withinLimit unambiguous first
  · intro reported
    cases reported with
    | combinationLimit isLimit first => exact .inl ⟨_, isLimit, _, first, rfl⟩
    | collision withinLimit clash => exact .inr ⟨withinLimit, .inl ⟨_, _, _, clash, rfl⟩⟩
    | unstorable withinLimit unambiguous first =>
        have isFirst := (head?_storageFaults_eq_some_iff unambiguous).mpr ⟨_, _, _, first, rfl⟩
        exact .inr ⟨withinLimit, .inr ⟨unambiguous, isFirst⟩⟩

/-- The last method clashes with both methods before it, with each at another combination. -/
example :
    let draw (types : List Ty) : MethodDecl :=
      ⟨"Canvas", "draw", [⟨"what", some (.ofTypes types), false⟩], none, false⟩
    let decl : TypeDecl :=
      { name := "Canvas", strategy := none, methods :=
        [draw [.scalar .string, .scalar .char], draw [.scalar .bool, .scalar .nil],
          draw [.scalar .string, .scalar .bool]] }
    decl.compile {} = .error (.collision "Canvas" "draw" ⟨[.scalar .bool]⟩
      ⟨[.ofTypes [.scalar .nil, .scalar .bool]]⟩ ⟨[.ofTypes [.scalar .bool, .scalar .string]]⟩) :=
  rfl

end TypeDecl

end MultiDispatch
