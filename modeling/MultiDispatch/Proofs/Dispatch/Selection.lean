import MultiDispatch.Proofs.Dispatch.Resolution

/-!
# Selection

Which method a send goes to is decided by the declaration alone.  A send finds a
site when a method of its name admits the types, and two dispatchers of one
declaration find the sites of one method at one combination, whatever the options.
-/

namespace MultiDispatch

namespace Dispatcher.Realizes

variable {ρ ε : Type} {decl : TypeDecl} {name : String} {types : List Ty}
  {dispatcher other : Dispatcher ρ ε} {options otherOptions : CompileOptions}
  {handlers otherHandlers : List (Method ρ ε)}

theorem exists_isCandidate_iff (realizes : dispatcher.Realizes decl options handlers) :
    (∃ place entry, dispatcher.IsCandidate name types place entry) ↔
      ∃ method ∈ decl.retained, method.name = name ∧ method.skip = false ∧
        method.signature.Admits types := by
  constructor
  · intro candidate
    obtain ⟨place, entry, isEntry, accepts, answers⟩ := candidate
    obtain ⟨site, isSite⟩ := Option.isSome_iff_exists.mp answers
    obtain ⟨method, inside, sameName, ⟨kept, instantiates⟩, _⟩ :=
      realizes.exists_method (List.mem_of_getElem? isEntry) isSite
    refine ⟨method, inside, sameName, kept, ?_⟩
    apply Signature.admits_iff.mpr
    exact ⟨_, instantiates, accepts⟩
  · intro admitted
    obtain ⟨method, inside, rfl, kept, admits⟩ := admitted
    obtain ⟨combination, instantiates, accepts⟩ := Signature.admits_iff.mp admits
    obtain ⟨entry, isEntry, rfl, site, isSite, _⟩ :=
      realizes.exists_site inside ⟨kept, instantiates⟩
    obtain ⟨place, atPlace⟩ := List.mem_iff_getElem?.mp isEntry
    exact ⟨place, entry, atPlace, accepts, by simp [isSite]⟩

/-- A send finds a site when it has a candidate. -/
theorem exists_resolve_iff_exists_isCandidate
    (realizes : dispatcher.Realizes decl options handlers) :
    (∃ site, dispatcher.resolve name types = some site) ↔
      ∃ place entry, dispatcher.IsCandidate name types place entry := by
  constructor
  · intro found
    obtain ⟨site, resolves⟩ := found
    obtain ⟨place, entry, best, _⟩ := exists_isBest_of_resolve realizes.nodup_combinations resolves
    exact ⟨place, entry, best.candidate⟩
  · intro present
    obtain ⟨place, entry, candidate⟩ := present
    rw [← Option.isSome_iff_exists, Option.isSome_iff_ne_none]
    intro misses
    exact not_isCandidate_of_resolve_eq_none realizes.nodup_combinations misses _ _ candidate

theorem exists_resolve_iff (realizes : dispatcher.Realizes decl options handlers) :
    (∃ site, dispatcher.resolve name types = some site) ↔
      ∃ method ∈ decl.retained, method.name = name ∧ method.skip = false ∧
        method.signature.Admits types := by
  rw [realizes.exists_resolve_iff_exists_isCandidate, realizes.exists_isCandidate_iff]

theorem combination_of_site? (realizes : dispatcher.Realizes decl options handlers)
    {entry : DispatchEntry ρ ε} (isEntry : entry ∈ dispatcher.entries) {site : CallSite ρ ε}
    (isSite : entry.site? name = some site) : site.combination = entry.combination := by
  obtain ⟨_, _, _, _, _, _, synthesized⟩ := realizes.exists_method isEntry isSite
  exact (CallSite.attributes_of_synthesize synthesized).2.1

/-- The site that a send resolves to belongs to a method that answers there. -/
theorem exists_method_of_resolve (realizes : dispatcher.Realizes decl options handlers)
    {site : CallSite ρ ε} (resolves : dispatcher.resolve name types = some site) :
    site.combination.Accepts types ∧
      ∃ method ∈ decl.retained, method.name = name ∧ method.Answers site.combination ∧
        site.Realizes (decl.plan options) handlers method site.combination := by
  obtain ⟨place, entry, best, isSite⟩ :=
    exists_isBest_of_resolve realizes.nodup_combinations resolves
  have isEntry := List.mem_of_getElem? best.candidate.1
  rw [realizes.combination_of_site? isEntry isSite]
  exact ⟨best.candidate.2.1, realizes.exists_method isEntry isSite⟩

/-- A method that answers at exactly the types is reached by them. -/
theorem exists_resolve_of_answers (realizes : dispatcher.Realizes decl options handlers)
    {method : Retained} (inside : method ∈ decl.retained) (answers : method.Answers ⟨types⟩) :
    ∃ site, dispatcher.resolve method.name types = some site ∧
      site.Realizes (decl.plan options) handlers method ⟨types⟩ := by
  obtain ⟨entry, isEntry, sameCombination, site, isSite, siteRealizes⟩ :=
    realizes.exists_site inside answers
  refine ⟨site, ?_, siteRealizes⟩
  exact resolve_of_exact realizes.nodup_combinations isEntry
    (congrArg Combination.types sameCombination) isSite

theorem missing_eq (realizes : dispatcher.Realizes decl options handlers) (name : String)
    (arguments : List Value) :
    dispatcher.missing name arguments = ⟨decl.name, name, ⟨arguments.map Value.ty⟩⟩ := by
  rw [missing, (ofPlan_eq_ok_iff.mp realizes.realized).2.1]
  rfl

section

variable (realizes : dispatcher.Realizes decl options handlers)
  (otherRealizes : other.Realizes decl otherOptions otherHandlers)
include realizes otherRealizes

/-- The tables are the same under all options. -/
theorem exists_candidate_counterpart {place : Nat} {entry : DispatchEntry ρ ε}
    (candidate : dispatcher.IsCandidate name types place entry) :
    ∃ counterpart, other.IsCandidate name types place counterpart ∧
      counterpart.combination = entry.combination := by
  obtain ⟨isEntry, accepts, answers⟩ := candidate
  obtain ⟨site, isSite⟩ := Option.isSome_iff_exists.mp answers
  obtain ⟨table, isTable, realized⟩ :=
    (ofPlan_eq_ok_iff.mp realizes.realized).1.exists_getElem?_left isEntry
  obtain ⟨counterpart, isCounterpart, otherRealized⟩ :=
    (ofPlan_eq_ok_iff.mp otherRealizes.realized).1.exists_getElem?_right isTable
  have sameCombination : counterpart.combination = entry.combination := by
    rw [(entryOfTable_eq_ok_iff.mp realized).1, (entryOfTable_eq_ok_iff.mp otherRealized).1]
  obtain ⟨method, found, _⟩ := exists_find?_of_site? realized isSite
  obtain ⟨otherSite, isOtherSite, _⟩ := exists_site?_of_find? otherRealized found
  refine ⟨counterpart, ⟨isCounterpart, ?_, by simp [isOtherSite]⟩, sameCombination⟩
  rwa [sameCombination]

theorem exists_best_counterpart {place : Nat} {entry : DispatchEntry ρ ε}
    (best : dispatcher.IsBest name types place entry) :
    ∃ counterpart, other.IsBest name types place counterpart ∧
      counterpart.combination = entry.combination := by
  obtain ⟨counterpart, candidate, same⟩ :=
    realizes.exists_candidate_counterpart otherRealizes best.candidate
  refine ⟨counterpart, ⟨candidate, ?_⟩, same⟩
  intro otherPlace rival rivalCandidate
  obtain ⟨original, originalCandidate, sameRival⟩ :=
    otherRealizes.exists_candidate_counterpart realizes rivalCandidate
  have least := best.least otherPlace original originalCandidate
  simpa only [DispatchEntry.priority, same, sameRival] using least

theorem exists_resolve_counterpart {site : CallSite ρ ε}
    (resolves : dispatcher.resolve name types = some site) :
    ∃ otherSite, other.resolve name types = some otherSite ∧
      otherSite.combination = site.combination := by
  obtain ⟨place, entry, best, isSite⟩ :=
    exists_isBest_of_resolve realizes.nodup_combinations resolves
  obtain ⟨counterpart, otherBest, same⟩ := realizes.exists_best_counterpart otherRealizes best
  obtain ⟨otherSite, isOtherSite⟩ := Option.isSome_iff_exists.mp otherBest.candidate.2.2
  refine ⟨otherSite, ?_, ?_⟩
  · exact resolve_of_isBest otherRealizes.nodup_combinations otherBest isOtherSite
  · rw [realizes.combination_of_site? (List.mem_of_getElem? best.candidate.1) isSite,
      otherRealizes.combination_of_site? (List.mem_of_getElem? otherBest.candidate.1) isOtherSite,
      same]

/-- Two dispatchers of one declaration go to one method at one combination. -/
theorem exists_common_method {site : CallSite ρ ε}
    (resolves : dispatcher.resolve name types = some site) :
    ∃ otherSite method combination, other.resolve name types = some otherSite ∧
      combination.Accepts types ∧ method ∈ decl.retained ∧ method.name = name ∧
      method.Answers combination ∧
      site.Realizes (decl.plan options) handlers method combination ∧
      otherSite.Realizes (decl.plan otherOptions) otherHandlers method combination := by
  obtain ⟨otherSite, otherResolves, sameCombination⟩ :=
    realizes.exists_resolve_counterpart otherRealizes resolves
  obtain ⟨accepts, method, inside, sameName, answers, siteRealizes⟩ :=
    realizes.exists_method_of_resolve resolves
  obtain ⟨_, otherMethod, otherInside, otherName, otherAnswers, otherSiteRealizes⟩ :=
    otherRealizes.exists_method_of_resolve otherResolves
  rw [sameCombination] at otherAnswers otherSiteRealizes
  have sameMethod : method = otherMethod := realizes.compilable.unambiguous.eq_of_answers inside
    otherInside (sameName.trans otherName.symm) answers otherAnswers
  subst sameMethod
  exact ⟨otherSite, method, site.combination, otherResolves, accepts, inside, sameName, answers,
    siteRealizes, otherSiteRealizes⟩

end

end Dispatcher.Realizes

end MultiDispatch
