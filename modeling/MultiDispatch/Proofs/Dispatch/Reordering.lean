import MultiDispatch.Proofs.Dispatch.Attachment
import MultiDispatch.Proofs.Dispatch.Selection
import MultiDispatch.Proofs.Plan.Reordering

/-!
# Resolution and the order of declaration

A send resolves to a combination that no other one on offer is more specific than.
Unless two of them are equally specific, it is determined by what is on offer, and
so by the methods alone: the order of their declaration has no part in it.
-/

namespace MultiDispatch

variable {ρ ε : Type}

/-- At one combination there is one site for a method with its handler. -/
theorem CallSite.Realizes.unique {site other : CallSite ρ ε} {plan : Plan}
    {handlers : List (Method ρ ε)} {method : Retained} {combination : Combination}
    (realizes : site.Realizes plan handlers method combination)
    (otherRealizes : other.Realizes plan handlers method combination) : site = other := by
  obtain ⟨handler, isHandler, synthesized⟩ := realizes
  have otherSynthesized := otherRealizes.synthesize_eq isHandler
  rw [synthesized] at otherSynthesized
  exact Except.ok.inj otherSynthesized

namespace Dispatcher.Realizes

variable {dispatcher other : Dispatcher ρ ε} {decl : TypeDecl} {options : CompileOptions}
  {handlers otherHandlers : List (Method ρ ε)} {name : String} {types : List Ty}

/-- What is on offer are the combinations of the candidates. -/
theorem offers_iff (realizes : dispatcher.Realizes decl options handlers)
    {combination : Combination} :
    (decl.plan options).Offers name types combination ↔
      ∃ place entry, dispatcher.IsCandidate name types place entry ∧
        entry.combination = combination := by
  constructor
  · intro offered
    obtain ⟨accepts, held⟩ := offered
    obtain ⟨method, isMethod⟩ := Option.isSome_iff_exists.mp held
    obtain ⟨inside, rfl, answers⟩ :=
      (TypeDecl.method?_plan_eq_some_iff realizes.compilable).mp isMethod
    have answersHere : method.Answers combination := answers
    obtain ⟨entry, isEntry, rfl, site, isSite, _⟩ := realizes.exists_site inside answersHere
    obtain ⟨place, atPlace⟩ := List.mem_iff_getElem?.mp isEntry
    exact ⟨place, entry, ⟨atPlace, accepts, by simp [isSite]⟩, rfl⟩
  · intro candidate
    obtain ⟨place, entry, ⟨isEntry, accepts, answers⟩, rfl⟩ := candidate
    obtain ⟨site, isSite⟩ := Option.isSome_iff_exists.mp answers
    obtain ⟨method, inside, sameName, methodAnswers, _⟩ :=
      realizes.exists_method (List.mem_of_getElem? isEntry) isSite
    refine ⟨accepts, ?_⟩
    rw [(TypeDecl.method?_plan_eq_some_iff realizes.compilable).mpr
      ⟨inside, sameName, methodAnswers⟩]
    rfl

theorem exists_resolve_iff_exists_offers (realizes : dispatcher.Realizes decl options handlers) :
    (∃ site, dispatcher.resolve name types = some site) ↔
      ∃ combination, (decl.plan options).Offers name types combination := by
  rw [realizes.exists_resolve_iff_exists_isCandidate]
  constructor
  · intro present
    obtain ⟨place, entry, candidate⟩ := present
    exact ⟨_, realizes.offers_iff.mpr ⟨place, entry, candidate, rfl⟩⟩
  · intro present
    obtain ⟨combination, offered⟩ := present
    obtain ⟨place, entry, candidate, _⟩ := realizes.offers_iff.mp offered
    exact ⟨place, entry, candidate⟩

/-- A send goes to a combination on offer that none is more specific than. -/
theorem most_specific_of_resolve (realizes : dispatcher.Realizes decl options handlers)
    {site : CallSite ρ ε} (resolves : dispatcher.resolve name types = some site) :
    (decl.plan options).Offers name types site.combination ∧
      ∀ combination, (decl.plan options).Offers name types combination →
        site.combination.abstractPositions < combination.abstractPositions ∨
          site.combination.abstractPositions = combination.abstractPositions ∧
            site.combination.breadth ≤ combination.breadth := by
  obtain ⟨place, entry, best, isSite⟩ :=
    exists_isBest_of_resolve realizes.nodup_combinations resolves
  rw [realizes.combination_of_site? (List.mem_of_getElem? best.candidate.1) isSite]
  refine ⟨realizes.offers_iff.mpr ⟨place, entry, best.candidate, rfl⟩, ?_⟩
  intro combination offered
  obtain ⟨otherPlace, rival, candidate, rfl⟩ := realizes.offers_iff.mp offered
  have least := best.least otherPlace rival candidate
  exact DispatchEntry.precedes_iff.mp (DispatchEntry.priority_le_iff.mp least).1

/-- The site belongs to the method that the plan holds at its combination. -/
theorem exists_method?_of_resolve (realizes : dispatcher.Realizes decl options handlers)
    {site : CallSite ρ ε} (resolves : dispatcher.resolve name types = some site) :
    ∃ method, (decl.plan options).method? site.combination.types name = some method ∧
      method ∈ decl.retained ∧
      site.Realizes (decl.plan options) handlers method site.combination := by
  obtain ⟨_, method, inside, sameName, answers, siteRealizes⟩ :=
    realizes.exists_method_of_resolve resolves
  refine ⟨method, ?_, inside, siteRealizes⟩
  exact (TypeDecl.method?_plan_eq_some_iff realizes.compilable).mpr ⟨inside, sameName, answers⟩

end Dispatcher.Realizes

namespace Plan.Renumbers

variable {place : Nat → Nat} {plan original : Plan} {name : String} {types : List Ty}

theorem offers_iff (renumbers : plan.Renumbers place original) {combination : Combination} :
    plan.Offers name types combination ↔ original.Offers name types combination := by
  rw [Offers, Offers, ← renumbers.method?_eq, Option.isSome_map]

end Plan.Renumbers

namespace TypeDecl

variable {decl : TypeDecl} {order : Equiv.Perm (Fin decl.methods.length)}
  {options : CompileOptions} {handlers otherHandlers : List (Method ρ ε)}

/-- Where the handlers are reordered alike, a site of a method of the reordered
declaration is a site of this method in the declaration itself. -/
theorem realizes_moveTo {method : Retained} (inside : method ∈ (decl.reorder order).retained)
    (alike : ∀ place : Fin decl.methods.length,
      otherHandlers[(place : Nat)]? = handlers[(order place : Nat)]?)
    {site : CallSite ρ ε} {combination : Combination}
    (realizes : site.Realizes ((decl.reorder order).plan options) otherHandlers method
      combination) :
    site.Realizes (decl.plan options) handlers (method.moveTo (decl.origin order)) combination := by
  obtain ⟨handler, isHandler, synthesized⟩ := realizes
  have declared := (List.getElem?_eq_some_iff.mp (mem_retained_iff.mp inside).1).1
  have placed : method.index < decl.methods.length := by
    rwa [(decl.perm_reorder order).length_eq] at declared
  refine ⟨handler, ?_, synthesized⟩
  rw [← isHandler, alike ⟨method.index, placed⟩, Retained.moveTo, origin_of_lt placed]

/-- Where the handlers are reordered alike and there was one for each method, there is
one for each method of the reordered declaration. -/
theorem length_le_of_alike
    (alike : ∀ place : Fin decl.methods.length,
      otherHandlers[(place : Nat)]? = handlers[(order place : Nat)]?)
    (enough : decl.methods.length ≤ handlers.length) :
    (decl.reorder order).methods.length ≤ otherHandlers.length := by
  rw [(decl.perm_reorder order).length_eq]
  by_contra fewer
  have missing : otherHandlers.length < decl.methods.length := Nat.lt_of_not_le fewer
  have beyond := alike ⟨otherHandlers.length, missing⟩
  rw [List.getElem?_eq_none (Nat.le_refl _)] at beyond
  have placed := (order ⟨otherHandlers.length, missing⟩).isLt
  have absent := List.getElem?_eq_none_iff.mp beyond.symm
  omega

end TypeDecl

namespace Dispatcher

section

variable {dispatcher other : Dispatcher ρ ε} {decl : TypeDecl}
  {order : Equiv.Perm (Fin decl.methods.length)} {options : CompileOptions}
  {handlers otherHandlers : List (Method ρ ε)}
  (realizes : dispatcher.Realizes decl options handlers)
  (otherRealizes : other.Realizes (decl.reorder order) options otherHandlers)
  (alike : ∀ place : Fin decl.methods.length,
    otherHandlers[(place : Nat)]? = handlers[(order place : Nat)]?)
  {name : String} {types : List Ty}
include realizes otherRealizes

/-- Whether a send finds a site does not depend on the order at all. -/
theorem Realizes.exists_resolve_reorder_iff :
    (∃ site, other.resolve name types = some site) ↔
      ∃ site, dispatcher.resolve name types = some site := by
  have renumbers := TypeDecl.renumbers_reorder order realizes.compilable
  rw [otherRealizes.exists_resolve_iff_exists_offers, realizes.exists_resolve_iff_exists_offers]
  simp only [renumbers.offers_iff]

theorem Realizes.combination_eq_of_not_ties (noTie : ¬(decl.plan options).Ties name types)
    {site otherSite : CallSite ρ ε} (resolves : dispatcher.resolve name types = some site)
    (otherResolves : other.resolve name types = some otherSite) :
    otherSite.combination = site.combination := by
  have renumbers := TypeDecl.renumbers_reorder order realizes.compilable
  obtain ⟨offered, least⟩ := realizes.most_specific_of_resolve resolves
  obtain ⟨otherOffered, otherLeast⟩ := otherRealizes.most_specific_of_resolve otherResolves
  have forward := least _ (renumbers.offers_iff.mp otherOffered)
  have backward := otherLeast _ (renumbers.offers_iff.mpr offered)
  by_contra differ
  apply noTie
  have otherOffered := renumbers.offers_iff.mp otherOffered
  refine ⟨_, otherOffered.mem_combinations, _, offered.mem_combinations, differ, otherOffered,
    offered, ?_, ?_⟩ <;> omega

include alike

/-- Both find the same site, and the method that it belongs to is the same declared one. -/
theorem Realizes.exists_common_site (noTie : ¬(decl.plan options).Ties name types)
    {site : CallSite ρ ε} (resolves : dispatcher.resolve name types = some site) :
    other.resolve name types = some site ∧
      ∃ method, ((decl.reorder order).plan options).method? site.combination.types name =
          some method ∧
        site.Realizes ((decl.reorder order).plan options) otherHandlers method site.combination ∧
        site.Realizes (decl.plan options) handlers (method.moveTo (decl.origin order))
          site.combination := by
  have renumbers := TypeDecl.renumbers_reorder order realizes.compilable
  obtain ⟨otherSite, otherResolves⟩ :=
    (realizes.exists_resolve_reorder_iff otherRealizes).mpr ⟨site, resolves⟩
  have sameCombination :=
    realizes.combination_eq_of_not_ties otherRealizes noTie resolves otherResolves
  obtain ⟨original, isOriginal, _, siteRealizes⟩ := realizes.exists_method?_of_resolve resolves
  obtain ⟨method, isMethod, inside, otherSiteRealizes⟩ :=
    otherRealizes.exists_method?_of_resolve otherResolves
  have moved := TypeDecl.realizes_moveTo inside alike otherSiteRealizes
  rw [sameCombination] at isMethod otherSiteRealizes moved
  have sameMethod : method.moveTo (decl.origin order) = original := by
    have held := renumbers.method?_eq site.combination.types name
    rw [isMethod, isOriginal] at held
    exact Option.some.inj held
  rw [sameMethod] at moved
  have sameSite := moved.unique siteRealizes
  subst sameSite
  exact ⟨otherResolves, method, isMethod, otherSiteRealizes, sameMethod ▸ moved⟩

theorem Realizes.resolve_reorder_eq (noTie : ¬(decl.plan options).Ties name types) :
    other.resolve name types = dispatcher.resolve name types := by
  apply Option.ext
  intro site
  constructor
  · intro otherResolves
    obtain ⟨original, resolves⟩ :=
      (realizes.exists_resolve_reorder_iff otherRealizes).mp ⟨site, otherResolves⟩
    have common := (realizes.exists_common_site otherRealizes alike noTie resolves).1
    rwa [← common, otherResolves] at resolves
  · intro resolves
    exact (realizes.exists_common_site otherRealizes alike noTie resolves).1

end

/-- The order in which the methods are declared decides neither whether a declaration
compiles nor, up to numbers, to what; and two dispatchers whose handlers are ordered
like the methods resolve a send to the same site of the same declared method, unless
two combinations on offer are equally specific. -/
theorem order_matters_only_in_ties (decl : TypeDecl)
    (order : Equiv.Perm (Fin decl.methods.length)) (options : CompileOptions) :
    ((∃ compiled, decl.compile options = .ok compiled) ↔
      ∃ reordered, (decl.reorder order).compile options = .ok reordered) ∧
    ∀ compiled reordered, decl.compile options = .ok compiled →
      (decl.reorder order).compile options = .ok reordered →
      reordered.plan.Renumbers (decl.origin order) compiled.plan ∧
      ∀ handlers otherHandlers : List (Method ρ ε),
        (∀ place : Fin decl.methods.length,
          otherHandlers[(place : Nat)]? = handlers[(order place : Nat)]?) →
        (decl.methods.length ≤ handlers.length →
          (∃ dispatcher, ofPlan compiled.plan handlers = .ok dispatcher) ∧
          ∃ other, ofPlan reordered.plan otherHandlers = .ok other) ∧
        ∀ dispatcher other, ofPlan compiled.plan handlers = .ok dispatcher →
          ofPlan reordered.plan otherHandlers = .ok other →
          ∀ name types, ¬compiled.plan.Ties name types →
            other.resolve name types = dispatcher.resolve name types ∧
            ∀ site, dispatcher.resolve name types = some site →
              ∃ method, reordered.plan.method? site.combination.types name = some method ∧
                site.Realizes reordered.plan otherHandlers method site.combination ∧
                site.Realizes compiled.plan handlers (method.moveTo (decl.origin order))
                  site.combination := by
  constructor
  · rw [TypeDecl.compile_isOk_iff, TypeDecl.compile_isOk_iff, TypeDecl.compilable_reorder_iff]
  · intro compiled reordered compiles reorderedCompiles
    have compilable := TypeDecl.compile_isOk_iff.mp ⟨compiled, compiles⟩
    have reorderedCompilable := TypeDecl.compile_isOk_iff.mp ⟨reordered, reorderedCompiles⟩
    rw [TypeDecl.plan_of_compile compiles, TypeDecl.plan_of_compile reorderedCompiles]
    refine ⟨TypeDecl.renumbers_reorder order compilable, ?_⟩
    intro handlers otherHandlers alike
    constructor
    · intro enough
      exact ⟨exists_ofPlan compilable enough,
        exists_ofPlan reorderedCompilable (TypeDecl.length_le_of_alike alike enough)⟩
    · intro dispatcher other realized otherRealized name types noTie
      have realizes : dispatcher.Realizes decl options handlers := ⟨compilable, realized⟩
      have otherRealizes : other.Realizes (decl.reorder order) options otherHandlers :=
        ⟨reorderedCompilable, otherRealized⟩
      refine ⟨realizes.resolve_reorder_eq otherRealizes alike noTie, ?_⟩
      intro site resolves
      exact (realizes.exists_common_site otherRealizes alike noTie resolves).2

/-- With the first and the third of its methods exchanged, a canvas draws a whole number
as before, by the handler that leaves `2`: numbers at large can be drawn too, but the
method for them is less specific. -/
theorem order_matters_only_in_ties_canvas :
    ∃ (leaving : Nat → Method Nat Unit) (compiled reordered : Compiled)
      (dispatcher other : Dispatcher Nat Unit),
      TypeDecl.canvas.compile {} = .ok compiled ∧
      (TypeDecl.canvas.reorder (Equiv.swap ⟨0, by decide⟩ ⟨2, by decide⟩)).compile {} =
        .ok reordered ∧
      ofPlan compiled.plan ([0, 1, 2, 3, 4].map leaving) = .ok dispatcher ∧
      ofPlan reordered.plan ([2, 1, 0, 3, 4].map leaving) = .ok other ∧
      ¬compiled.plan.Ties "draw" [.scalar (.signed .w32)] ∧
      other.resolve "draw" [.scalar (.signed .w32)] =
        dispatcher.resolve "draw" [.scalar (.signed .w32)] ∧
      ((other.resolve "draw" [.scalar (.signed .w32)]).map fun site =>
        (site.invoke [.scalar (.signed .w32) 7] 0).2) = some 2 := by
  let leaving : Nat → Method Nat Unit := fun place _ => do
    set place
    return none
  have compiles : TypeDecl.canvas.compile {} = .ok ⟨TypeDecl.canvas.plan {}, _⟩ := rfl
  have reorderedCompiles :
      (TypeDecl.canvas.reorder (Equiv.swap ⟨0, by decide⟩ ⟨2, by decide⟩)).compile {} =
        .ok _ := rfl
  have exchanged : ∀ place : Fin 5, [2, 1, 0, 3, 4][(place : Nat)]? =
      [0, 1, 2, 3, 4][(Equiv.swap (0 : Fin 5) 2 place : Nat)]? := by decide
  have alike : ∀ place : Fin 5, ([2, 1, 0, 3, 4].map leaving)[(place : Nat)]? =
      ([0, 1, 2, 3, 4].map leaving)[(Equiv.swap (0 : Fin 5) 2 place : Nat)]? := by
    intro place
    rw [List.getElem?_map, List.getElem?_map, exchanged]
  have noTie : ¬(TypeDecl.canvas.plan {}).Ties "draw" [.scalar (.signed .w32)] := by decide
  obtain ⟨_, unlessTied⟩ := order_matters_only_in_ties TypeDecl.canvas _ {}
  obtain ⟨_, attached⟩ := unlessTied _ _ compiles reorderedCompiles
  obtain ⟨_, agree⟩ := attached _ _ alike
  obtain ⟨same, _⟩ := agree _ _ rfl rfl _ _ noTie
  exact ⟨leaving, _, _, _, _, compiles, reorderedCompiles, rfl, rfl, noTie, same, rfl⟩

end Dispatcher

end MultiDispatch
