import MultiDispatch.Proofs.Plan.Faults

/-!
# Counts that stick

The count of a signature sticks at the largest word and forgets by how much the
product goes beyond it.  A limit or a threshold below that word is exceeded by the
count exactly when it is exceeded by the product, whatever the order of the factors
and even if a later one is zero.  So the verdicts of a compilation are those of the
exact products.
-/

namespace MultiDispatch

namespace Signature

variable {signature : Signature}

theorem count_eq_prod_of_lt (fits : signature.radices.prod < 2 ^ 64) :
    signature.count = signature.radices.prod := by
  rw [count_eq_min]
  exact Nat.min_eq_left (Nat.le_of_lt_succ fits)

theorem lt_count_iff {limit : Nat} (below : limit < countLimit) :
    limit < signature.count ↔ limit < signature.radices.prod := by
  rw [count_eq_min, Nat.lt_min, and_iff_left below]

end Signature

/-- The report of an expansion that exceeds the threshold. -/
def Diagnostic.IsLargeExpansion (diagnostic : Diagnostic) : Prop :=
  ∃ count threshold, diagnostic.kind = .largeExpansion count threshold

instance : DecidablePred Diagnostic.IsLargeExpansion
  | ⟨_, _, .largeExpansion count threshold⟩ => isTrue ⟨count, threshold, rfl⟩
  | ⟨_, _, .untypedParameter _⟩ => isFalse fun ⟨_, _, same⟩ => nomatch same
  | ⟨_, _, .interiorDefault _⟩ => isFalse fun ⟨_, _, same⟩ => nomatch same

theorem MethodDecl.exclusion?_ne_largeExpansion (method : MethodDecl) (count threshold : Nat) :
    method.exclusion? ≠ some (.largeExpansion count threshold) := by
  intro excluded
  rcases Option.or_eq_some_iff.mp excluded with untyped | ⟨_, misplaced⟩
  · rcases Option.map_eq_some_iff.mp untyped with ⟨_, _, impossible⟩
    cases impossible
  · rcases Option.map_eq_some_iff.mp misplaced with ⟨_, _, impossible⟩
    cases impossible

namespace TypeDecl

variable {decl : TypeDecl} {options : CompileOptions} {limit : Nat}

/-- The first method whose combinations, all of them counted, exceed the limit. -/
structure FirstExceeding (decl : TypeDecl) (limit : Nat) (method : Retained) : Prop where
  inside : method ∈ decl.retained
  exceeds : limit < method.signature.radices.prod
  earliest : ∀ other ∈ decl.retained, limit < other.signature.radices.prod →
    method.index ≤ other.index

theorem firstOversized_iff (below : limit < Signature.countLimit) {method : Retained} :
    decl.FirstOversized limit method ↔ decl.FirstExceeding limit method := by
  constructor
  · intro first
    refine ⟨first.inside, (Signature.lt_count_iff below).mp first.exceeds, ?_⟩
    intro other otherInside exceeds
    exact first.earliest other otherInside ((Signature.lt_count_iff below).mpr exceeds)
  · intro first
    refine ⟨first.inside, (Signature.lt_count_iff below).mpr first.exceeds, ?_⟩
    intro other otherInside exceeds
    exact first.earliest other otherInside ((Signature.lt_count_iff below).mp exceeds)

theorem exists_firstExceeding {method : Retained} (inside : method ∈ decl.retained)
    (exceeds : limit < method.signature.radices.prod) :
    ∃ first, decl.FirstExceeding limit first := by
  let found? (method : Retained) : Option Retained :=
    if limit < method.signature.radices.prod then some method else none
  have isSome_found? : ∀ {other : Retained},
      (found? other).isSome ↔ limit < other.signature.radices.prod := by
    intro other
    simp [found?]
  have hit : (decl.retained.findSome? found?).isSome := by
    rw [List.findSome?_isSome_iff]
    exact ⟨method, inside, isSome_found?.mpr exceeds⟩
  rcases Option.isSome_iff_exists.mp hit with ⟨_, found⟩
  rcases findSome?_retained_eq_some_iff.mp found with ⟨first, firstInside, isFound, earliest⟩
  refine ⟨first, firstInside, isSome_found?.mp (by rw [isFound]; rfl), ?_⟩
  intro other otherInside otherExceeds
  exact earliest other otherInside (isSome_found?.mpr otherExceeds)

/-- Of the checks only that of the limit refuses an expansion for its size. -/
theorem compile_eq_combinationLimit_iff {owner name : String} {count bound : Nat} :
    decl.compile options = .error (.combinationLimit owner name count bound) ↔
      ∃ limit ∈ options.maxCombinations, ∃ method, decl.FirstOversized limit method ∧
        ConfigurationError.combinationLimit owner name count bound =
          .combinationLimit decl.name method.name method.signature.count limit := by
  rw [compile_eq_error_iff, head?_limitFaults_eq_some_iff]
  constructor
  · intro fails
    rcases fails with oversized | ⟨_, collides | ⟨_, unstorable⟩⟩
    · exact oversized
    · obtain ⟨method, _, isFault⟩ := List.mem_filterMap.mp (List.mem_of_mem_head? collides)
      rcases eq_collision_of_collision? isFault with ⟨_, _, _, impossible⟩
      cases impossible
    · obtain ⟨table, _, isFault⟩ := List.mem_flatMap.mp (List.mem_of_mem_head? unstorable)
      obtain ⟨method, _, isFault⟩ := List.mem_filterMap.mp isFault
      rcases storageFault?_eq_some_iff.mp isFault with ⟨_, _, _, impossible⟩
      cases impossible
  · exact .inl

theorem largeExpansion?_eq_ite (below : options.combinationWarning < Signature.countLimit)
    (method : Retained) :
    decl.largeExpansion? options method =
      if options.combinationWarning < method.signature.radices.prod then
        some ⟨decl.name, method.name, .largeExpansion
          (min method.signature.radices.prod Signature.countLimit) options.combinationWarning⟩
      else none := by
  simp only [largeExpansion?, Signature.lt_count_iff below]
  rw [Signature.count_eq_min]

/-- An excluded method is reported for its parameters only. -/
theorem filter_isLargeExpansion_exclusions (decl : TypeDecl) :
    (Extraction.ofDecl decl).diagnostics.filter (fun found => found.IsLargeExpansion) = [] := by
  rw [List.filter_eq_nil_iff]
  intro found reported large
  obtain ⟨count, threshold, isKind⟩ := of_decide_eq_true large
  obtain ⟨method, _, excluded⟩ := List.mem_filterMap.mp reported
  obtain ⟨kind, isExclusion, rfl⟩ := Option.map_eq_some_iff.mp excluded
  have sameKind : kind = .largeExpansion count threshold := isKind
  rw [sameKind] at isExclusion
  exact method.exclusion?_ne_largeExpansion count threshold isExclusion

/-- What is reported as a large expansion are the methods whose exact products exceed the
threshold, in their order. -/
theorem filter_isLargeExpansion_of_compile
    (below : options.combinationWarning < Signature.countLimit) {compiled : Compiled}
    (compiles : decl.compile options = .ok compiled) :
    compiled.diagnostics.filter (fun found => found.IsLargeExpansion) =
      (decl.retained.filter fun method =>
        options.combinationWarning < method.signature.radices.prod).map fun method =>
          ⟨decl.name, method.name, .largeExpansion
            (min method.signature.radices.prod Signature.countLimit)
              options.combinationWarning⟩ := by
  obtain ⟨_, _, _, rfl⟩ := compile_eq_ok_iff.mp compiles
  rw [List.filter_append, filter_isLargeExpansion_exclusions, List.nil_append,
    List.filter_eq_self.mpr]
  · rw [← List.filterMap_eq_map, List.filterMap_filter]
    apply List.filterMap_congr
    intro method _
    rw [largeExpansion?_eq_ite below]
    by_cases exceeds : options.combinationWarning < method.signature.radices.prod <;> simp [exceeds]
  · intro found reported
    obtain ⟨method, _, isReport⟩ := List.mem_filterMap.mp reported
    rw [largeExpansion?_eq_ite below] at isReport
    obtain ⟨_, same⟩ := Option.ite_none_right_eq_some.mp isReport
    cases same
    exact decide_eq_true ⟨_, _, rfl⟩

/-- A count is the exact product up to the largest word.  So a limit below that word refuses
a declaration exactly when some exact product exceeds it, naming the first method that has one,
and a threshold reports exactly the methods whose products exceed it. -/
theorem oversized_iff_exact_product_exceeds :
    (∀ signature : Signature,
      signature.count = min signature.radices.prod (2 ^ 64 - 1) ∧
        (signature.radices.prod < 2 ^ 64 → signature.count = signature.radices.prod)) ∧
      (∀ (decl : TypeDecl) (options : CompileOptions), ∀ limit ∈ options.maxCombinations,
        limit < 2 ^ 64 - 1 →
          ((∃ owner name count bound,
              decl.compile options = .error (.combinationLimit owner name count bound)) ↔
            ∃ method ∈ decl.retained, limit < method.signature.radices.prod) ∧
          ∀ owner name count bound,
            decl.compile options = .error (.combinationLimit owner name count bound) ↔
              ∃ method, decl.FirstExceeding limit method ∧
                ConfigurationError.combinationLimit owner name count bound =
                  .combinationLimit decl.name method.name
                    (min method.signature.radices.prod (2 ^ 64 - 1)) limit) ∧
      ∀ (decl : TypeDecl) (options : CompileOptions) (compiled : Compiled),
        options.combinationWarning < 2 ^ 64 - 1 → decl.compile options = .ok compiled →
          compiled.diagnostics.filter (fun found => found.IsLargeExpansion) =
            (decl.retained.filter fun method =>
              options.combinationWarning < method.signature.radices.prod).map fun method =>
                ⟨decl.name, method.name, .largeExpansion
                  (min method.signature.radices.prod (2 ^ 64 - 1)) options.combinationWarning⟩ := by
  refine ⟨?counts, ?refusals, ?reports⟩
  case counts =>
    intro signature
    exact ⟨signature.count_eq_min, Signature.count_eq_prod_of_lt⟩
  case refusals =>
    intro decl options limit isLimit below
    have refuses_iff : ∀ owner name count bound,
        decl.compile options = .error (.combinationLimit owner name count bound) ↔
          ∃ method, decl.FirstExceeding limit method ∧
            ConfigurationError.combinationLimit owner name count bound =
              .combinationLimit decl.name method.name
                (min method.signature.radices.prod Signature.countLimit) limit := by
      intro owner name count bound
      rw [compile_eq_combinationLimit_iff]
      simp only [Option.mem_def.mp isLimit, Option.mem_some_iff, exists_eq_left',
        firstOversized_iff below, Signature.count_eq_min]
    refine ⟨⟨?_, ?_⟩, refuses_iff⟩
    · intro refused
      rcases refused with ⟨owner, name, count, bound, fails⟩
      rcases (refuses_iff owner name count bound).mp fails with ⟨method, first, _⟩
      exact ⟨method, first.inside, first.exceeds⟩
    · intro exceeding
      rcases exceeding with ⟨method, inside, exceeds⟩
      rcases exists_firstExceeding inside exceeds with ⟨first, isFirst⟩
      exact ⟨_, _, _, _, (refuses_iff _ _ _ _).mpr ⟨first, isFirst, rfl⟩⟩
  case reports =>
    intro decl options compiled below compiles
    exact filter_isLargeExpansion_of_compile below compiles

/-- Two alternatives at each of 64 positions, and behind them what the list says. -/
def connection (behind : List Constraint) : Signature where
  constraints := List.replicate 64 (Constraint.ofTypes [.scalar .nil, .scalar .bool]) ++ behind

def connect (behind : List Constraint) : MethodDecl where
  owner := "Switchboard"
  name := "connect"
  parameters := (connection behind).constraints.map fun constraint => ⟨"line", constraint, false⟩
  strategy := none
  skip := false

def switchboard (behind : List Constraint) : TypeDecl := ⟨"Switchboard", none, [connect behind]⟩

/-- The product goes beyond the largest word by one, and a position without alternatives
behind it brings it down to nothing. -/
theorem oversized_iff_exact_product_exceeds_switchboard :
    (switchboard []).compile { maxCombinations := some (2 ^ 64 - 2) } =
        .error (.combinationLimit "Switchboard" "connect" (2 ^ 64 - 1) (2 ^ 64 - 2)) ∧
      (¬∃ owner name count bound, (switchboard [.ofTypes []]).compile
        { maxCombinations := some 0 } = .error (.combinationLimit owner name count bound)) ∧
      ∃ compiled, canvas.compile { combinationWarning := 1 } = .ok compiled ∧
        compiled.diagnostics.filter (fun found => found.IsLargeExpansion) =
          [⟨"Canvas", "draw", .largeExpansion 2 1⟩] := by
  obtain ⟨_, refusals, reports⟩ := oversized_iff_exact_product_exceeds
  refine ⟨?_, ?_, ?_⟩
  · have refuses_iff := (refusals (switchboard []) { maxCombinations := some (2 ^ 64 - 2) }
      (2 ^ 64 - 2) rfl (by decide)).2
    rw [refuses_iff]
    refine ⟨⟨connect [], connection [], 0⟩, ⟨?_, by decide, ?_⟩, by decide⟩
    · decide
    intro other _ _
    exact Nat.zero_le _
  · have refused_iff := (refusals (switchboard [.ofTypes []]) { maxCombinations := some 0 }
      0 rfl (by decide)).1
    rw [refused_iff]
    decide
  · exact ⟨_, rfl, (reports canvas { combinationWarning := 1 } _ (by decide) rfl).trans (by decide)⟩

end TypeDecl

end MultiDispatch
