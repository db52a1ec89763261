import MultiDispatch.Proofs.Plan.Faults
import MultiDispatch.Proofs.Plan.Interning

/-!
# Tables in one pass

The tables can also be filled step by step, a step for each combination of each
method.  A step interns the combination, appends a table when the identifier is the
number of tables there are, and enters the method there.  So the set, its index and
the tables grow in step; and the pass ends with the first clash, or else with the
tables that are laid out at once.
-/

namespace MultiDispatch

/-- A table as it is filled, under the identifier of its combination. -/
structure Draft where
  id : Nat
  entries : NameMap Retained

/-- A method at one of its combinations. -/
abbrev Placement := Retained × Combination

namespace Placement

variable {placements : List Placement} {combination : Combination} {name : String}
  {method : Retained}

/-- The first of the methods that answer at the combination under the name. -/
def first? (placements : List Placement) (combination : Combination) (name : String) :
    Option Retained :=
  (placements.find? fun (method, placed) =>
    placed = combination ∧ method.name = name ∧ method.skip = false).map Prod.fst

theorem first?_append_singleton (placements : List Placement) (method : Retained)
    (placed combination : Combination) (name : String) :
    first? (placements ++ [(method, placed)]) combination name =
      (first? placements combination name).or
        (if placed = combination ∧ method.name = name ∧ method.skip = false then some method
          else none) := by
  rw [first?, first?, List.find?_append, Option.map_or, List.find?_singleton]
  by_cases placedThere : placed = combination ∧ method.name = name ∧ method.skip = false
  · simp [placedThere]
  · simp [placedThere]

theorem mem_of_first? (found : first? placements combination name = some method) :
    (method, combination) ∈ placements ∧ method.name = name ∧ method.skip = false := by
  obtain ⟨⟨_, placed⟩, isFirst, rfl⟩ := Option.map_eq_some_iff.mp found
  have holds := List.find?_some isFirst
  obtain ⟨rfl, sameName, kept⟩ := of_decide_eq_true holds
  exact ⟨List.mem_of_find?_eq_some isFirst, sameName, kept⟩

theorem exists_first? (placed : (method, combination) ∈ placements) (kept : method.skip = false) :
    ∃ first, first? placements combination method.name = some first := by
  rw [← Option.isSome_iff_exists, first?, Option.isSome_map, List.find?_isSome]
  exact ⟨(method, combination), placed, by simp [kept]⟩

end Placement

structure Assembly where
  combinations : CombinationSet
  drafts : List Draft

namespace Assembly

instance : EmptyCollection Assembly where
  emptyCollection := ⟨∅, []⟩

/-- The assembly in which the combination has a table, with its identifier. -/
def visit (assembly : Assembly) (combination : Combination) : Nat × Assembly :=
  let (id, combinations) := assembly.combinations.intern combination
  let drafts :=
    if id = assembly.drafts.length then assembly.drafts ++ [⟨id, ∅⟩] else assembly.drafts
  (id, ⟨combinations, drafts⟩)

def entered? (assembly : Assembly) (id : Nat) (name : String) : Option Retained :=
  assembly.drafts[id]?.bind fun draft => draft.entries.find? name

def enter (assembly : Assembly) (id : Nat) (method : Retained) : Assembly :=
  { assembly with
    drafts := assembly.drafts.modify id fun draft =>
      { draft with entries := draft.entries.insert method.name method } }

/-- One step.  A skipped method leaves its combination but no entry. -/
def place (owner : String) (assembly : Assembly) (placement : Placement) :
    Except ConfigurationError Assembly :=
  let (method, combination) := placement
  let (id, visited) := assembly.visit combination
  if method.skip then pure visited
  else
    match visited.entered? id method.name with
    | none => pure (visited.enter id method)
    | some existing =>
        if existing.index = method.index then pure visited
        else
          throw (.collision owner method.name combination existing.signature method.signature)

def placements (methods : List Retained) : List Placement :=
  methods.flatMap fun method => method.signature.expand.map fun combination => (method, combination)

def build (owner : String) (methods : List Retained) : Except ConfigurationError Assembly :=
  (placements methods).foldlM (place owner) ∅

/-- The tables, each with the combination that its identifier leads to. -/
def tables (assembly : Assembly) : List Table :=
  assembly.drafts.filterMap fun draft =>
    (assembly.combinations.get? draft.id).map fun combination => ⟨combination, draft.entries⟩

/-- What is entered at a combination under a name. -/
def find? (assembly : Assembly) (combination : Combination) (name : String) : Option Retained :=
  (assembly.combinations.id? combination).bind fun id => assembly.entered? id name

/-- Each slot holds the table of the combination with its number. -/
structure InStep (assembly : Assembly) : Prop where
  coherent : assembly.combinations.Coherent
  slots : assembly.drafts.map Draft.id = List.range assembly.combinations.size

section Steps

variable {assembly : Assembly} {combination : Combination} {method : Retained} {id : Nat}

theorem inStep_empty : (∅ : Assembly).InStep :=
  ⟨CombinationSet.coherent_empty, rfl⟩

theorem InStep.length_drafts (inStep : assembly.InStep) :
    assembly.drafts.length = assembly.combinations.size := by
  rw [← List.length_map Draft.id, inStep.slots, List.length_range]

theorem InStep.lt_length_drafts (inStep : assembly.InStep)
    (known : assembly.combinations.id? combination = some id) : id < assembly.drafts.length := by
  rw [inStep.length_drafts]
  exact CombinationSet.lt_size_of_get? ((inStep.coherent _ _).mp known)

theorem visit_of_known (inStep : assembly.InStep)
    (known : assembly.combinations.id? combination = some id) :
    assembly.visit combination = (id, assembly) := by
  simp only [visit, CombinationSet.intern_of_known known,
    if_neg (Nat.ne_of_lt (inStep.lt_length_drafts known))]

theorem visit_of_new (inStep : assembly.InStep)
    (new : assembly.combinations.id? combination = none) :
    assembly.visit combination = (assembly.combinations.size,
      ⟨assembly.combinations.add combination,
        assembly.drafts ++ [⟨assembly.combinations.size, ∅⟩]⟩) := by
  simp only [visit, CombinationSet.intern_of_new new, if_pos inStep.length_drafts.symm]

theorem combinations_visit (assembly : Assembly) (combination : Combination) :
    (assembly.visit combination).2.combinations =
      (assembly.combinations.intern combination).2 := rfl

theorem id?_visit (assembly : Assembly) (combination : Combination) :
    (assembly.visit combination).2.combinations.id? combination =
      some (assembly.visit combination).1 :=
  CombinationSet.id?_intern assembly.combinations combination

namespace InStep

theorem visit (inStep : assembly.InStep) (combination : Combination) :
    (assembly.visit combination).2.InStep := by
  cases found : assembly.combinations.id? combination with
  | some id => rwa [visit_of_known inStep found]
  | none =>
      rw [visit_of_new inStep found]
      refine ⟨inStep.coherent.add found, ?_⟩
      rw [List.map_append, inStep.slots, CombinationSet.size_add, List.range_succ]
      rfl

/-- A new table is empty, so a visit enters nothing. -/
theorem find?_visit (inStep : assembly.InStep) (combination other : Combination) (name : String) :
    (assembly.visit combination).2.find? other name = assembly.find? other name := by
  cases found : assembly.combinations.id? combination with
  | some id => rw [visit_of_known inStep found]
  | none =>
      rw [visit_of_new inStep found, find?, find?, CombinationSet.id?_add]
      by_cases same : other = combination
      · subst same
        rw [if_pos rfl, found, Option.bind_some, entered?, ← inStep.length_drafts,
          List.getElem?_concat_length]
        rfl
      · rw [if_neg same]
        apply Option.bind_congr
        intro id known
        rw [entered?, entered?, List.getElem?_append_left (inStep.lt_length_drafts known)]

theorem enter (inStep : assembly.InStep) (id : Nat) (method : Retained) :
    (assembly.enter id method).InStep := by
  refine ⟨inStep.coherent, ?_⟩
  have sameIds : (assembly.enter id method).drafts.map Draft.id = assembly.drafts.map Draft.id := by
    apply List.ext_getElem?
    intro slot
    rw [List.getElem?_map, List.getElem?_map, Assembly.enter, List.getElem?_modify]
    split <;> simp [Function.comp_def]
  rw [sameIds]
  exact inStep.slots

theorem find?_enter (inStep : assembly.InStep)
    (known : assembly.combinations.id? combination = some id) (method : Retained)
    (other : Combination) (name : String) :
    (assembly.enter id method).find? other name =
      if combination = other ∧ method.name = name then some method
      else assembly.find? other name := by
  by_cases same : combination = other
  · subst same
    simp only [find?, Assembly.enter, known, Option.bind_some, entered?, List.getElem?_modify_eq,
      List.getElem?_eq_getElem (inStep.lt_length_drafts known), Option.map_eq_map,
      Option.map_some, NameMap.find?_insert, true_and, eq_comm]
  · rw [if_neg fun both => same both.1]
    apply Option.bind_congr
    intro slot isOther
    have differs : id ≠ slot := by
      rintro rfl
      apply same
      apply Option.some.inj
      rw [← (inStep.coherent _ _).mp known, (inStep.coherent _ _).mp isOther]
    simp only [entered?, Assembly.enter, List.getElem?_modify_ne _ _ differs]

theorem entered?_visit (inStep : assembly.InStep) (combination : Combination) (name : String) :
    (assembly.visit combination).2.entered? (assembly.visit combination).1 name =
      assembly.find? combination name := by
  rw [← inStep.find?_visit combination combination name, find?, id?_visit, Option.bind_some]

end InStep

variable {owner : String}

theorem place_eq_ok_iff (inStep : assembly.InStep) {next : Assembly} :
    assembly.place owner (method, combination) = .ok next ↔
      (method.skip = true ∨ ∃ existing, assembly.find? combination method.name = some existing ∧
          existing.index = method.index) ∧
        (assembly.visit combination).2 = next ∨
      (method.skip = false ∧ assembly.find? combination method.name = none) ∧
        (assembly.visit combination).2.enter (assembly.visit combination).1 method = next := by
  simp only [place, ← inStep.entered?_visit]
  cases method.skip with
  | true => simp [pure, Except.pure]
  | false =>
      cases (assembly.visit combination).2.entered? (assembly.visit combination).1 method.name with
      | none => simp [pure, Except.pure]
      | some existing =>
          by_cases same : existing.index = method.index
          · simp [same, pure, Except.pure]
          · simp [same, throw, throwThe, MonadExceptOf.throw]

theorem place_eq_error_iff (inStep : assembly.InStep) {fault : ConfigurationError} :
    assembly.place owner (method, combination) = .error fault ↔
      method.skip = false ∧ ∃ existing,
        assembly.find? combination method.name = some existing ∧ existing.index ≠ method.index ∧
        fault = .collision owner method.name combination existing.signature method.signature := by
  simp only [place, ← inStep.entered?_visit]
  cases method.skip with
  | true => simp [pure, Except.pure]
  | false =>
      cases (assembly.visit combination).2.entered? (assembly.visit combination).1 method.name with
      | none => simp [pure, Except.pure]
      | some existing =>
          by_cases same : existing.index = method.index
          · simp [same, pure, Except.pure]
          · simpa [same, throw, throwThe, MonadExceptOf.throw] using eq_comm

end Steps

/-- What a run over the placements has come to. -/
structure Assembles (placements : List Placement) (assembly : Assembly) : Prop where
  inStep : assembly.InStep
  interned : assembly.combinations = (CombinationSet.internAll ∅ (placements.map Prod.snd)).2
  /-- Who comes first is entered, and stays. -/
  entered : ∀ combination name,
    assembly.find? combination name = Placement.first? placements combination name

namespace Assembles

variable {placements : List Placement} {assembly next : Assembly} {method : Retained}
  {combination : Combination} {owner : String}

theorem empty : Assembles [] ∅ :=
  ⟨inStep_empty, rfl, fun _ _ => rfl⟩

theorem interned_visit (assembles : Assembles placements assembly) (method : Retained)
    (combination : Combination) :
    (assembly.visit combination).2.combinations =
      (CombinationSet.internAll ∅ ((placements ++ [(method, combination)]).map Prod.snd)).2 := by
  rw [combinations_visit, assembles.interned, List.map_append, CombinationSet.internAll_append]
  rfl

theorem place (assembles : Assembles placements assembly)
    (placed : assembly.place owner (method, combination) = .ok next) :
    Assembles (placements ++ [(method, combination)]) next := by
  have visited := assembles.inStep.visit combination
  have interned := assembles.interned_visit method combination
  rcases (place_eq_ok_iff assembles.inStep).mp placed with
    ⟨settled, rfl⟩ | ⟨⟨kept, vacant⟩, rfl⟩
  · refine ⟨visited, interned, ?_⟩
    intro other name
    rw [assembles.inStep.find?_visit, assembles.entered, Placement.first?_append_singleton]
    split
    · rename_i here
      obtain ⟨rfl, rfl, kept⟩ := here
      rcases settled with skipped | ⟨existing, found, _⟩
      · rw [kept] at skipped
        cases skipped
      · rw [← assembles.entered, found, Option.some_or]
    · rw [Option.or_none]
  · refine ⟨visited.enter _ _, interned, ?_⟩
    intro other name
    rw [visited.find?_enter (id?_visit assembly combination), assembles.inStep.find?_visit,
      Placement.first?_append_singleton, assembles.entered]
    by_cases here : combination = other ∧ method.name = name
    · obtain ⟨rfl, rfl⟩ := here
      rw [← assembles.entered, vacant]
      simp [kept]
    · have elsewhere : ¬(combination = other ∧ method.name = name ∧ method.skip = false) :=
        fun all => here ⟨all.1, all.2.1⟩
      rw [if_neg here, if_neg elsewhere, Option.or_none]

end Assembles

/-- A run that does not fail keeps everything in step. -/
theorem assembles_of_run {owner : String} {placements : List Placement} {assembly : Assembly}
    (ran : placements.foldlM (place owner) ∅ = .ok assembly) : Assembles placements assembly := by
  induction placements using List.reverseRecOn generalizing assembly with
  | nil =>
      cases ran
      exact .empty
  | append_singleton placements placement inductionHypothesis =>
      obtain ⟨method, combination⟩ := placement
      rw [List.foldlM_append, Except.bind_eq_ok_iff] at ran
      obtain ⟨reached, ran, placed⟩ := ran
      simp only [List.foldlM_cons, List.foldlM_nil, bind_pure] at placed
      exact (inductionHypothesis ran).place placed

/-- A run fails where a second method comes to a combination at which another of its
name is entered. -/
theorem run_eq_error_iff {owner : String} {placements : List Placement}
    {fault : ConfigurationError} :
    placements.foldlM (place owner) ∅ = .error fault ↔
      ∃ before method combination after assembly existing,
        placements = before ++ (method, combination) :: after ∧
        before.foldlM (place owner) ∅ = .ok assembly ∧ method.skip = false ∧
        Placement.first? before combination method.name = some existing ∧
        existing.index ≠ method.index ∧
        fault = .collision owner method.name combination existing.signature method.signature := by
  rw [List.foldlM_eq_error_iff]
  constructor
  · intro failed
    obtain ⟨before, ⟨method, combination⟩, after, reached, whole, ran, fails⟩ := failed
    have assembles := assembles_of_run ran
    obtain ⟨kept, existing, found, differ, isFault⟩ :=
      (place_eq_error_iff assembles.inStep).mp fails
    rw [assembles.entered] at found
    exact ⟨before, method, combination, after, reached, existing, whole, ran, kept, found, differ,
      isFault⟩
  · intro failed
    obtain ⟨before, method, combination, after, reached, existing, whole, ran, kept, found, differ,
      isFault⟩ := failed
    have assembles := assembles_of_run ran
    rw [← assembles.entered] at found
    exact ⟨before, (method, combination), after, reached, whole, ran,
      (place_eq_error_iff assembles.inStep).mpr ⟨kept, existing, found, differ, isFault⟩⟩

section Tables

variable {assembly : Assembly}

theorem InStep.id_eq_of_getElem? (inStep : assembly.InStep) {slot : Nat} {draft : Draft}
    (atSlot : assembly.drafts[slot]? = some draft) : draft.id = slot := by
  have numbered : (assembly.drafts.map Draft.id)[slot]? = some draft.id := by
    rw [List.getElem?_map, atSlot, Option.map_some]
  rw [inStep.slots] at numbered
  obtain ⟨_, isNumber⟩ := List.getElem?_eq_some_iff.mp numbered
  rw [← isNumber, List.getElem_range]

theorem InStep.map_combination_tables (inStep : assembly.InStep) :
    assembly.tables.map Table.combination = assembly.combinations.toList := by
  have ledTo : assembly.drafts.map (fun draft => assembly.combinations.get? draft.id) =
      assembly.combinations.toList.map some := by
    have sameLength : assembly.drafts.length = assembly.combinations.toList.length :=
      inStep.length_drafts
    apply List.ext_getElem (by simpa using sameLength)
    intro slot isDraft isCombination
    rw [List.getElem_map, List.getElem_map]
    rw [List.length_map] at isDraft isCombination
    rw [inStep.id_eq_of_getElem? (List.getElem?_eq_getElem isDraft)]
    exact List.getElem?_eq_getElem isCombination
  have sameCombination : assembly.tables.map Table.combination =
      (assembly.drafts.map fun draft => assembly.combinations.get? draft.id).filterMap id := by
    rw [tables, List.map_filterMap, List.filterMap_map]
    simp [Function.comp_def]
  rw [sameCombination, ledTo, List.filterMap_map, Function.id_comp, List.filterMap_some]

/-- Each table holds what is found at its combination. -/
theorem InStep.find?_of_mem_tables (inStep : assembly.InStep) {table : Table}
    (isTable : table ∈ assembly.tables) (name : String) :
    table.find? name = assembly.find? table.combination name := by
  obtain ⟨draft, inside, isDraft⟩ := List.mem_filterMap.mp isTable
  obtain ⟨combination, atPlace, rfl⟩ := Option.map_eq_some_iff.mp isDraft
  obtain ⟨slot, atSlot⟩ := List.mem_iff_getElem?.mp inside
  rw [find?, (inStep.coherent _ _).mpr atPlace, Option.bind_some, entered?,
    inStep.id_eq_of_getElem? atSlot, atSlot]
  rfl

end Tables

section Layout

variable {decl : TypeDecl} {methods : List Retained} {method existing : Retained}
  {combination : Combination} {name : String}

theorem mem_placements_iff :
    (method, combination) ∈ placements methods ↔
      method ∈ methods ∧ combination.Instantiates method.signature := by
  simp [placements]

theorem map_snd_placements (methods : List Retained) :
    (placements methods).map Prod.snd =
      methods.flatMap fun method => method.signature.expand := by
  simp [placements, List.map_flatMap, Function.comp_def]

/-- An earlier method comes first, and of one method the lesser combination. -/
def Precedes (earlier later : Placement) : Prop :=
  earlier.1.index < later.1.index ∨
    earlier.1.index = later.1.index ∧ compare earlier.2 later.2 = .lt

theorem pairwise_placements
    (ordered : methods.Pairwise fun earlier later => earlier.index < later.index) :
    (placements methods).Pairwise Precedes := by
  rw [placements, List.pairwise_flatMap]
  constructor
  · intro method _
    rw [List.pairwise_map]
    apply method.signature.pairwise_expand.imp
    intro earlier later less
    exact .inr ⟨rfl, less⟩
  · apply ordered.imp
    intro earlier later less first isFirst second isSecond
    obtain ⟨_, _, rfl⟩ := List.mem_map.mp isFirst
    obtain ⟨_, _, rfl⟩ := List.mem_map.mp isSecond
    exact .inl less

/-- Among methods that do not clash the first to answer is the only one. -/
theorem first?_placements (unambiguous : Retained.Unambiguous methods) (combination : Combination)
    (name : String) :
    Placement.first? (placements methods) combination name =
      (Table.ofMethods methods combination).find? name := by
  ext method
  rw [Table.find?_ofMethods_eq_some_iff unambiguous]
  have answering : ∀ {method},
      Placement.first? (placements methods) combination name = some method →
        method ∈ methods ∧ method.name = name ∧ method.Answers combination := by
    intro method found
    obtain ⟨placed, sameName, kept⟩ := Placement.mem_of_first? found
    obtain ⟨inside, instantiates⟩ := mem_placements_iff.mp placed
    exact ⟨inside, sameName, kept, instantiates⟩
  refine ⟨answering, ?_⟩
  intro answers
  obtain ⟨inside, rfl, kept, instantiates⟩ := answers
  obtain ⟨first, found⟩ :=
    Placement.exists_first? (mem_placements_iff.mpr ⟨inside, instantiates⟩) kept
  obtain ⟨firstInside, sameName, firstAnswers⟩ := answering found
  rw [found, unambiguous.eq_of_answers firstInside inside sameName firstAnswers
    ⟨kept, instantiates⟩]

theorem Assembles.tables_eq_allOfMethods {assembly : Assembly}
    (assembles : Assembles (placements methods) assembly)
    (ordered : methods.Pairwise fun earlier later => earlier.index < later.index)
    (unambiguous : Retained.Unambiguous methods) :
    assembly.tables = Table.allOfMethods methods := by
  have laidOut : ∀ table ∈ assembly.tables,
      (Table.ofMethods methods ∘ Table.combination) table = table := by
    intro table isTable
    apply Table.eq_of_find?_eq (Table.combination_ofMethods _ _)
    intro name
    rw [assembles.inStep.find?_of_mem_tables isTable, assembles.entered,
      first?_placements unambiguous]
  have combinations : assembly.tables.map Table.combination =
      methods.flatMap (Retained.fresh methods) := by
    rw [assembles.inStep.map_combination_tables, assembles.interned,
      (CombinationSet.interned_internAll _).toList_eq, map_snd_placements,
      Table.flatMap_fresh ordered]
  rw [Table.allOfMethods, ← combinations, List.map_map, List.map_congr_left laidOut, List.map_id']

theorem mem_of_placements_eq {before after : List Placement}
    (whole : placements methods = before ++ (method, combination) :: after) :
    method ∈ methods ∧ combination.Instantiates method.signature := by
  rw [← mem_placements_iff, whole]
  exact List.mem_append_right _ List.mem_cons_self

theorem precedes_of_placements_eq {before after : List Placement} {placement : Placement}
    (whole : placements decl.retained = before ++ placement :: after) :
    (∀ earlier ∈ before, Precedes earlier placement) ∧
      ∀ later ∈ after, Precedes placement later := by
  have ordered := pairwise_placements decl.pairwise_index_retained
  rw [whole, List.pairwise_append, List.pairwise_cons] at ordered
  obtain ⟨_, ⟨precedesRest, _⟩, across⟩ := ordered
  exact ⟨fun earlier inside => across earlier inside _ List.mem_cons_self, precedesRest⟩

/-- Whoever is entered where another method comes shares the combination with it. -/
theorem shares_of_first? {before after : List Placement}
    (whole : placements decl.retained = before ++ (method, combination) :: after)
    (kept : method.skip = false)
    (found : Placement.first? before combination method.name = some existing)
    (differ : existing.index ≠ method.index) :
    method.Shares decl.retained existing combination := by
  obtain ⟨placed, sameName, existingKept⟩ := Placement.mem_of_first? found
  have isPlaced : (existing, combination) ∈ placements decl.retained := by
    rw [whole]
    exact List.mem_append_left _ placed
  obtain ⟨inside, instantiates⟩ := mem_placements_iff.mp isPlaced
  refine ⟨inside, ?_, sameName, ⟨existingKept, instantiates⟩, kept,
    (mem_of_placements_eq whole).2⟩
  rcases (precedes_of_placements_eq whole).1 _ placed with earlier | ⟨same, _⟩
  · exact earlier
  · exact absurd same differ

theorem exists_build_of_unambiguous (unambiguous : Retained.Unambiguous decl.retained) :
    ∃ assembly, build decl.name decl.retained = .ok assembly := by
  cases ran : build decl.name decl.retained with
  | ok assembly => exact ⟨assembly, rfl⟩
  | error fault =>
      obtain ⟨before, method, combination, after, _, existing, whole, _, kept, found, differ, _⟩ :=
        run_eq_error_iff.mp ran
      have shares := shares_of_first? whole kept found differ
      obtain ⟨inside, _, clash⟩ := Retained.exists_shares_iff_clashes.mp ⟨combination, shares⟩
      have different : existing ≠ method := by
        rintro rfl
        exact differ rfl
      exact absurd clash
        (unambiguous existing inside method (mem_of_placements_eq whole).1 different)

section FirstClash

variable {first second : Retained} {before after : List Placement}
  (clash : decl.FirstClash first second combination)
  (whole : placements decl.retained = before ++ (second, combination) :: after)

include clash whole

/-- Whoever came too late before would have shared a combination earlier. -/
theorem exists_run_before_firstClash :
    ∃ reached, before.foldlM (place decl.name) ∅ = .ok reached := by
  cases ran : before.foldlM (place decl.name) ∅ with
  | ok reached => exact ⟨reached, rfl⟩
  | error fault =>
      obtain ⟨front, method, shared, back, _, existing, rfl, _, kept, found, differ, _⟩ :=
        run_eq_error_iff.mp ran
      have precedes := (precedes_of_placements_eq whole).1 (method, shared) (by simp)
      rw [List.append_assoc, List.cons_append] at whole
      have inside := (mem_of_placements_eq whole).1
      have shares := shares_of_first? whole kept found differ
      rcases precedes with earlier | ⟨same, less⟩
      · have notEarlier := clash.earliest method inside existing shared shares
        exact absurd earlier (Nat.not_lt_of_le notEarlier)
      · obtain rfl := TypeDecl.eq_of_index_eq inside clash.inside same
        exact absurd (clash.least existing shared shares) (Std.OrientedCmp.not_isLE_of_lt less)

theorem mem_before_firstClash : (first, combination) ∈ before := by
  have placed : (first, combination) ∈ placements decl.retained :=
    mem_placements_iff.mpr ⟨clash.shares.inside, clash.shares.rivalAnswers.2⟩
  rw [whole, List.mem_append, List.mem_cons] at placed
  rcases placed with entered | same | behind
  · exact entered
  · have less := clash.shares.earlier
    rw [(Prod.mk.inj same).1] at less
    exact absurd less (Nat.lt_irrefl _)
  · rcases (precedes_of_placements_eq whole).2 _ behind with later | ⟨same, _⟩
    · exact absurd clash.shares.earlier (Nat.lt_asymm later)
    · exact absurd same (Nat.ne_of_gt clash.shares.earlier)

theorem first?_before_firstClash :
    Placement.first? before combination second.name = some first := by
  have entered := mem_before_firstClash clash whole
  obtain ⟨existing, found⟩ := Placement.exists_first? entered clash.shares.rivalAnswers.1
  rw [clash.shares.sameName] at found
  have differ : existing.index ≠ second.index := by
    intro same
    have placed := (Placement.mem_of_first? found).1
    rcases (precedes_of_placements_eq whole).1 _ placed with earlier | ⟨_, less⟩
    · exact Nat.ne_of_lt earlier same
    · rw [Std.ReflOrd.compare_self] at less
      cases less
  have shares := shares_of_first? whole clash.shares.answers.1 found differ
  rw [found, clash.unique existing shares]

end FirstClash

/-- The pass stops at the first clash. -/
theorem build_of_firstClash {first second : Retained}
    (clash : decl.FirstClash first second combination) :
    build decl.name decl.retained =
      .error (.collision decl.name second.name combination first.signature second.signature) := by
  obtain ⟨before, after, whole⟩ := List.append_of_mem
    (mem_placements_iff.mpr ⟨clash.inside, clash.shares.answers.2⟩)
  obtain ⟨reached, ran⟩ := exists_run_before_firstClash clash whole
  exact run_eq_error_iff.mpr ⟨before, second, combination, after, reached, first, whole, ran,
    clash.shares.answers.1, first?_before_firstClash clash whole,
    Nat.ne_of_lt clash.shares.earlier, rfl⟩

/-- The pass comes to what the checks and the layout come to. -/
theorem tables_build (decl : TypeDecl) :
    tables <$> build decl.name decl.retained = (do
      TypeDecl.throwFirst
        (decl.retained.filterMap (Retained.collision? decl.name decl.retained))
      return Table.allOfMethods decl.retained) := by
  cases collisions : decl.retained.filterMap (Retained.collision? decl.name decl.retained) with
  | nil =>
      have unambiguous := TypeDecl.collisions_eq_nil_iff.mp collisions
      obtain ⟨assembly, built⟩ := exists_build_of_unambiguous unambiguous
      rw [built]
      exact congrArg Except.ok ((assembles_of_run built).tables_eq_allOfMethods
        decl.pairwise_index_retained unambiguous)
  | cons fault _ =>
      have isFirst : (decl.retained.filterMap
          (Retained.collision? decl.name decl.retained)).head? = some fault := by
        rw [collisions, List.head?_cons]
      obtain ⟨first, second, combination, clash, rfl⟩ :=
        TypeDecl.head?_collisions_eq_some_iff.mp isFirst
      rw [build_of_firstClash clash]
      rfl

end Layout

/-- Interning hands out the numbers from zero on, one for each distinct combination in
the order in which they first come; the set and its index find the same, and nothing that
comes later changes what has been found.  A pass that fills tables keeps them in step
with the set: each slot holds the table of the combination with its number, and there are
no other tables.  The pass over the methods of a declaration gives its tables. -/
theorem combinations_and_tables_stay_in_step :
    (∀ combinations more : List Combination,
      let (ids, set) := CombinationSet.internAll ∅ combinations
      let (laterIds, later) := CombinationSet.internAll ∅ (combinations ++ more)
      set.toList = combinations.eraseDups ∧ set.toList.Nodup ∧
        ids.eraseDups = List.range set.size ∧ ids.map set.get? = combinations.map some ∧
        (∀ combination, (∃ id, set.id? combination = some id) ↔ combination ∈ combinations) ∧
        (∀ combination id, set.id? combination = some id ↔ set.get? id = some combination) ∧
        ids <+: laterIds ∧ set.Extends later) ∧
      (∀ owner placements assembly, placements.foldlM (place owner) ∅ = .ok assembly →
        assembly.combinations = (CombinationSet.internAll ∅ (placements.map Prod.snd)).2 ∧
          assembly.drafts.map Draft.id = List.range assembly.combinations.size ∧
          assembly.tables.map Table.combination = assembly.combinations.toList ∧
          ∀ table ∈ assembly.tables, ∀ name,
            table.find? name = Placement.first? placements table.combination name) ∧
      ∀ decl : TypeDecl, tables <$> build decl.name decl.retained = (do
        TypeDecl.throwFirst
          (decl.retained.filterMap (Retained.collision? decl.name decl.retained))
        return Table.allOfMethods decl.retained) := by
  refine ⟨?_, ?_, tables_build⟩
  · intro combinations more
    have interned := CombinationSet.interned_internAll combinations
    rw [CombinationSet.internAll_append]
    refine ⟨interned.toList_eq, ?_, interned.counted, interned.leadBack,
      fun _ => interned.exists_id?_iff, interned.coherent, List.prefix_append _ _,
      CombinationSet.extends_internAll _ more⟩
    rw [interned.toList_eq]
    exact List.nodup_eraseDups combinations
  · intro owner placements assembly ran
    have assembles := assembles_of_run ran
    refine ⟨assembles.interned, assembles.inStep.slots, assembles.inStep.map_combination_tables, ?_⟩
    intro table isTable name
    rw [assembles.inStep.find?_of_mem_tables isTable, assembles.entered]

/-- What is placed twice is entered once. -/
theorem combinations_and_tables_stay_in_step_canvas :
    let twice := placements TypeDecl.canvas.retained ++ placements TypeDecl.canvas.retained
    ∃ assembly, twice.foldlM (place "Canvas") ∅ = .ok assembly ∧
      assembly.drafts.map Draft.id = [0, 1, 2, 3, 4] ∧
      assembly.tables.map Table.combination =
        [⟨[.family .number]⟩, ⟨[.scalar (.signed .w32)]⟩, ⟨[.scalar .string]⟩,
          ⟨[.scalar .char]⟩, ⟨[.scalar .string, .scalar .bool]⟩] := by
  intro twice
  obtain ⟨assembly, ran⟩ : ∃ assembly, twice.foldlM (place "Canvas") ∅ = .ok assembly :=
    ⟨_, rfl⟩
  obtain ⟨interned, slots, combinations, _⟩ :=
    combinations_and_tables_stay_in_step.2.1 "Canvas" twice assembly ran
  have distinct := (combinations_and_tables_stay_in_step.1 (twice.map Prod.snd) []).1
  rw [interned] at slots combinations
  rw [distinct] at combinations
  exact ⟨assembly, ran, slots.trans rfl, combinations.trans rfl⟩

end Assembly

end MultiDispatch
