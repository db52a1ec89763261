import MultiDispatch.Proofs.Dispatch.Reordering

/-!
# Dominated overloads

Of two combinations that could take a send, one is better position by position when
the other accepts its types.  The counts by which candidates are ranked follow this
order: a better combination has no more families and is strictly narrower.  So the
combination of a send is never worse than another one on offer, and one that is
better than all others is taken, wherever it was declared.
-/

namespace MultiDispatch

variable {ρ ε : Type}

namespace Dispatcher

/-- An entry for the combination accepts the types and has a site for the name. -/
def Holds (dispatcher : Dispatcher ρ ε) (name : String) (types : List Ty)
    (combination : Combination) : Prop :=
  ∃ entry ∈ dispatcher.entries, entry.combination = combination ∧ combination.Accepts types ∧
    (entry.site? name).isSome

/-- Every combination that could take the types accepts this one position by position. -/
def IsMostSpecific (dispatcher : Dispatcher ρ ε) (name : String) (types : List Ty)
    (combination : Combination) : Prop :=
  dispatcher.Holds name types combination ∧
    ∀ other, dispatcher.Holds name types other → other.Accepts combination.types

variable {dispatcher other : Dispatcher ρ ε} {name : String} {types : List Ty}
  {combination : Combination}

theorem holds_iff_exists_isCandidate :
    dispatcher.Holds name types combination ↔
      ∃ place entry, dispatcher.IsCandidate name types place entry ∧
        entry.combination = combination := by
  constructor
  · intro held
    rcases held with ⟨entry, inside, rfl, accepts, answers⟩
    rcases List.mem_iff_getElem?.mp inside with ⟨place, isEntry⟩
    exact ⟨place, entry, ⟨isEntry, accepts, answers⟩, rfl⟩
  · intro candidate
    rcases candidate with ⟨place, entry, ⟨isEntry, accepts, answers⟩, rfl⟩
    exact ⟨entry, List.mem_of_getElem? isEntry, rfl, accepts, answers⟩

/-- A combination that the best one accepts would have as few families and be narrower,
unless it is the best one. -/
theorem IsBest.eq_of_accepts {place : Nat} {entry : DispatchEntry ρ ε}
    (best : dispatcher.IsBest name types place entry)
    (held : dispatcher.Holds name types combination)
    (accepts : entry.combination.Accepts combination.types) : combination = entry.combination := by
  by_contra differ
  rcases holds_iff_exists_isCandidate.mp held with ⟨rivalPlace, rival, candidate, rfl⟩
  have least := (DispatchEntry.priority_le_iff.mp (best.least rivalPlace rival candidate)).1
  rw [DispatchEntry.precedes_iff] at least
  have notMoreFamilies := accepts.abstractPositions_le
  have narrower := accepts.breadth_lt_of_ne fun same =>
    differ (Combination.eq_of_types_eq same).symm
  change rival.combination.abstractPositions ≤ _ at notMoreFamilies
  change rival.combination.breadth < _ at narrower
  omega

section

variable (distinct : (dispatcher.entries.map (·.combination)).Nodup)
include distinct

theorem exists_resolve_of_isMostSpecific
    (mostSpecific : dispatcher.IsMostSpecific name types combination) :
    ∃ entry ∈ dispatcher.entries, entry.combination = combination ∧
      ∃ site, entry.site? name = some site ∧ dispatcher.resolve name types = some site := by
  rcases mostSpecific with ⟨held, accepted⟩
  rcases holds_iff_exists_isCandidate.mp held with ⟨place, entry, candidate, _⟩
  cases resolves : dispatcher.resolve name types with
  | none => exact absurd candidate (not_isCandidate_of_resolve_eq_none distinct resolves _ _)
  | some site =>
      rcases exists_isBest_of_resolve distinct resolves with ⟨bestPlace, chosen, best, isSite⟩
      have chosenHeld := holds_iff_exists_isCandidate.mpr ⟨bestPlace, chosen, best.candidate, rfl⟩
      have same := best.eq_of_accepts held (accepted chosen.combination chosenHeld)
      exact ⟨chosen, List.mem_of_getElem? best.candidate.1, same.symm, site, isSite, rfl⟩

/-- The order of the entries has no part in what the most specific combination is, nor
in what is found at it. -/
theorem resolve_eq_of_perm (mostSpecific : dispatcher.IsMostSpecific name types combination)
    (reordered : other.entries.Perm dispatcher.entries) :
    other.resolve name types = dispatcher.resolve name types := by
  have otherDistinct : (other.entries.map (·.combination)).Nodup :=
    (reordered.map _).nodup_iff.mpr distinct
  have otherMostSpecific : other.IsMostSpecific name types combination := by
    simpa only [IsMostSpecific, Holds, reordered.mem_iff] using mostSpecific
  rcases exists_resolve_of_isMostSpecific distinct mostSpecific with
    ⟨entry, inside, rfl, site, isSite, resolves⟩
  rcases exists_resolve_of_isMostSpecific otherDistinct otherMostSpecific with
    ⟨otherEntry, otherInside, same, otherSite, isOtherSite, otherResolves⟩
  have sameEntry : otherEntry = entry :=
    List.inj_on_of_nodup_map distinct (reordered.mem_iff.mp otherInside) inside same
  rw [sameEntry, isSite] at isOtherSite
  rw [resolves, otherResolves, isOtherSite]

end

namespace Realizes

variable {decl : TypeDecl} {options : CompileOptions} {handlers otherHandlers : List (Method ρ ε)}

theorem isMostSpecific_iff (realizes : dispatcher.Realizes decl options handlers) :
    dispatcher.IsMostSpecific name types combination ↔
      (decl.plan options).Offers name types combination ∧
        ∀ other, (decl.plan options).Offers name types other →
          other.Accepts combination.types := by
  simp only [IsMostSpecific, holds_iff_exists_isCandidate, realizes.offers_iff]

/-- In another order of declaration the same combinations can take a send. -/
theorem isMostSpecific_reorder {order : Equiv.Perm (Fin decl.methods.length)}
    (realizes : dispatcher.Realizes decl options handlers)
    (otherRealizes : other.Realizes (decl.reorder order) options otherHandlers)
    (mostSpecific : dispatcher.IsMostSpecific name types combination) :
    other.IsMostSpecific name types combination := by
  have renumbers := TypeDecl.renumbers_reorder order realizes.compilable
  rw [otherRealizes.isMostSpecific_iff]
  simp only [renumbers.offers_iff]
  exact realizes.isMostSpecific_iff.mp mostSpecific

theorem exists_resolve_reorder {order : Equiv.Perm (Fin decl.methods.length)}
    (realizes : dispatcher.Realizes decl options handlers)
    (otherRealizes : other.Realizes (decl.reorder order) options otherHandlers)
    (mostSpecific : dispatcher.IsMostSpecific name types combination) :
    ∃ site, other.resolve name types = some site ∧ site.combination = combination := by
  rcases exists_resolve_of_isMostSpecific otherRealizes.nodup_combinations
    (realizes.isMostSpecific_reorder otherRealizes mostSpecific) with
    ⟨entry, inside, rfl, site, isSite, resolves⟩
  exact ⟨site, resolves, otherRealizes.combination_of_site? inside isSite⟩

end Realizes

/-- Where the entries stand at different combinations, as those of every plan do, a send
never goes to a combination when another one that could take it is more specific at some
positions and as specific at the others.  One that is the most specific at every position
is where the send goes, in whatever order the entries stand or the methods are declared. -/
theorem resolve_is_never_dominated {dispatcher : Dispatcher ρ ε}
    (distinct : (dispatcher.entries.map (·.combination)).Nodup) (name : String)
    (types : List Ty) :
    (∀ site, dispatcher.resolve name types = some site →
      ∃ entry ∈ dispatcher.entries, entry.site? name = some site ∧
        entry.combination.Accepts types ∧
        ¬∃ combination, dispatcher.Holds name types combination ∧
          entry.combination.Accepts combination.types ∧ combination ≠ entry.combination) ∧
    ∀ combination, dispatcher.IsMostSpecific name types combination →
      (∃ entry ∈ dispatcher.entries, entry.combination = combination ∧
        ∃ site, entry.site? name = some site ∧ dispatcher.resolve name types = some site) ∧
      (∀ other : Dispatcher ρ ε, other.entries.Perm dispatcher.entries →
        other.resolve name types = dispatcher.resolve name types) ∧
      ∀ decl options handlers, dispatcher.Realizes decl options handlers →
        ∀ order otherHandlers (other : Dispatcher ρ ε),
          other.Realizes (decl.reorder order) options otherHandlers →
          ∃ site, other.resolve name types = some site ∧ site.combination = combination := by
  constructor
  · intro site resolves
    rcases exists_isBest_of_resolve distinct resolves with ⟨place, entry, best, isSite⟩
    refine ⟨entry, List.mem_of_getElem? best.candidate.1, isSite, best.candidate.2.1, ?_⟩
    intro dominated
    rcases dominated with ⟨combination, held, accepts, differ⟩
    exact differ (best.eq_of_accepts held accepts)
  · intro combination mostSpecific
    refine ⟨exists_resolve_of_isMostSpecific distinct mostSpecific, ?_, ?_⟩
    · intro other reordered
      exact resolve_eq_of_perm distinct mostSpecific reordered
    · intro decl options handlers realizes order otherHandlers other otherRealizes
      exact realizes.exists_resolve_reorder otherRealizes mostSpecific

/-- Three ways to weigh two numbers, the most special of them declared last. -/
def scales : TypeDecl where
  name := "Scales"
  strategy := some .closure
  methods :=
    [⟨"Scales", "weigh", [⟨"left", some (.single (.family .number)), false⟩,
        ⟨"right", some (.single (.family .object)), false⟩], none, false⟩,
      ⟨"Scales", "weigh", [⟨"left", some (.single (.family .int)), false⟩,
        ⟨"right", some (.single (.family .number)), false⟩], none, false⟩,
      ⟨"Scales", "weigh", [⟨"left", some (.single (.family .signedInt)), false⟩,
        ⟨"right", some (.single (.family .int)), false⟩], none, false⟩]

theorem offers_scales :
    let types : List Ty := [.scalar (.signed .w32), .scalar (.unsigned .w8)]
    let best : Combination := ⟨[.family .signedInt, .family .int]⟩
    (scales.plan {}).Offers "weigh" types best ∧
      ∀ other, (scales.plan {}).Offers "weigh" types other → other.Accepts best.types := by
  intro types best
  constructor
  · decide
  · intro other offered
    have accepted : ∀ combination ∈ (scales.plan {}).combinations,
        combination.Accepts best.types := by decide
    exact accepted other offered.mem_combinations

theorem resolve_is_never_dominated_scales :
    let types : List Ty := [.scalar (.signed .w32), .scalar (.unsigned .w8)]
    let best : Combination := ⟨[.family .signedInt, .family .int]⟩
    let turned := scales.reorder (Equiv.swap ⟨0, by decide⟩ ⟨2, by decide⟩)
    let idle : List (Method Unit Unit) := List.replicate 3 fun _ => pure none
    ∃ dispatcher other : Dispatcher Unit Unit,
      dispatcher.Realizes scales {} idle ∧ other.Realizes turned {} idle ∧
      dispatcher.entries.length = 3 ∧ (dispatcher.entries.map (·.combination)).Nodup ∧
      dispatcher.IsMostSpecific "weigh" types best ∧
      (∃ site, dispatcher.resolve "weigh" types = some site ∧
        ∃ entry ∈ dispatcher.entries, entry.site? "weigh" = some site ∧
          ¬∃ combination, dispatcher.Holds "weigh" types combination ∧
            entry.combination.Accepts combination.types ∧ combination ≠ entry.combination) ∧
      ∃ site, other.resolve "weigh" types = some site ∧ site.combination = best := by
  intro types best turned idle
  have compiles : scales.compile {} = .ok ⟨scales.plan {}, _⟩ := rfl
  have realized : ofPlan (scales.plan {}) idle = .ok _ := rfl
  have turnedCompiles : turned.compile {} = .ok ⟨turned.plan {}, _⟩ := rfl
  have turnedRealized : ofPlan (turned.plan {}) idle = .ok _ := rfl
  have realizes := realizes_of_compile compiles realized
  have turnedRealizes := realizes_of_compile turnedCompiles turnedRealized
  have mostSpecific := realizes.isMostSpecific_iff.mpr offers_scales
  rcases resolve_is_never_dominated realizes.nodup_combinations "weigh" types with
    ⟨undominated, chosen⟩
  rcases chosen best mostSpecific with ⟨⟨_, _, _, site, _, resolves⟩, _, anyOrder⟩
  rcases undominated site resolves with ⟨entry, inside, isSite, _, free⟩
  refine ⟨_, _, realizes, turnedRealizes, rfl, realizes.nodup_combinations, mostSpecific, ?_, ?_⟩
  · exact ⟨site, resolves, entry, inside, isSite, free⟩
  · exact anyOrder _ _ _ realizes _ _ _ turnedRealizes

end Dispatcher

end MultiDispatch
