import MultiDispatch.Dispatch.Dispatcher
import MultiDispatch.Proofs.Combination.Layout
import MultiDispatch.Proofs.Combination.Specificity

/-!
# Invocation

What becomes of the arguments at a call site.  A closure passes them on; a record
passes them on too, unless an object stands where a scalar is stored.  That can
only be an object whose declared name is the name of a scalar.
-/

namespace MultiDispatch

/-- An object that is dispatched as if it were a scalar. -/
def Value.PassesForScalar : Value → Prop
  | .scalar _ _ => False
  | .object o => ∃ s, o.type.ty = .scalar s

instance : DecidablePred Value.PassesForScalar
  | .scalar _ _ => isFalse id
  | .object o =>
      match stands : o.type.ty with
      | .scalar s => isTrue ⟨s, stands⟩
      | .family _ | .named _ => isFalse fun ⟨_, isScalar⟩ => nomatch stands.symm.trans isScalar

theorem Slot.not_admits_of_passesForScalar {slot : Slot} {value : Value}
    (passes : value.PassesForScalar) : ¬slot.Admits value := by
  intro admits
  cases value with
  | scalar _ _ => exact passes
  | object o =>
      obtain ⟨s, isScalar⟩ := passes
      cases slot with
      | scalar _ => exact admits
      | handle name => cases isScalar.symm.trans admits

theorem Slot.admits_iff {slot : Slot} {value : Value} (stores : value.ty.slot? = some slot) :
    slot.Admits value ↔ ¬value.PassesForScalar := by
  refine ⟨fun admits passes => not_admits_of_passesForScalar passes admits, ?_⟩
  intro notPassing
  cases value with
  | scalar _ _ =>
      cases stores
      rfl
  | object o =>
      rw [Value.ty] at stores
      cases stands : o.type.ty with
      | scalar s => exact absurd ⟨s, stands⟩ notPassing
      | family _ =>
          rw [stands] at stores
          cases stores
      | named _ =>
          rw [stands] at stores
          cases stores
          exact stands

/-- A layout for exactly the types of the arguments packs them, but for the objects
that pass for scalars. -/
theorem packs_iff {layout : List Slot} {arguments : List Value}
    (stored : List.Forall₂ (fun value slot => value.ty.slot? = some slot) arguments layout) :
    Packs layout arguments ↔ ∀ argument ∈ arguments, ¬argument.PassesForScalar := by
  induction stored with
  | nil => simp
  | cons head _ inductionHypothesis =>
      rw [packs_cons_cons_iff, List.forall_mem_cons, Slot.admits_iff head, inductionHypothesis]

namespace CallSite

variable {ρ ε : Type} {method : Retained} {combination : Combination} {handler : Method ρ ε}
  {site : CallSite ρ ε} {arguments : List Value}

theorem synthesize_valueObject_eq_ok_iff :
    synthesize method combination .valueObject handler = .ok site ↔
      ∃ layout, combination.layout = .ok layout ∧
        site = ⟨Label.callSite method.name method.signature, combination,
          .record layout handler⟩ := by
  cases hasLayout : combination.layout <;> simp [synthesize, hasLayout, eq_comm]

theorem invoke_of_closure
    (synthesized : synthesize method combination .closure handler = .ok site) :
    site.invoke arguments = handler arguments := by
  cases synthesized
  rfl

/-- A record is reached only by the very types that it stores. -/
theorem types_eq_of_valueObject
    (synthesized : synthesize method combination .valueObject handler = .ok site)
    {types : List Ty} (accepts : combination.Accepts types) : combination.types = types := by
  obtain ⟨layout, hasLayout, _⟩ := synthesize_valueObject_eq_ok_iff.mp synthesized
  exact accepts.eq_of_forall_not_isAbstract (Combination.exists_layout_iff.mp ⟨layout, hasLayout⟩)

theorem invoke_of_valueObject
    (synthesized : synthesize method combination .valueObject handler = .ok site)
    (accepts : combination.Accepts (arguments.map Value.ty)) :
    site.invoke arguments =
      if ∀ argument ∈ arguments, ¬argument.PassesForScalar then handler arguments
      else pure none := by
  have sameTypes := types_eq_of_valueObject synthesized accepts
  obtain ⟨layout, hasLayout, rfl⟩ := synthesize_valueObject_eq_ok_iff.mp synthesized
  rw [Combination.layout_eq_ok_iff, sameTypes, List.forall₂_map_left_iff] at hasLayout
  simp only [invoke, packs_iff hasLayout]

end CallSite

namespace Dispatcher

variable {ρ ε : Type} {dispatcher : Dispatcher ρ ε} {name : String} {arguments : List Value}

theorem tryInvoke_of_resolve_eq_none
    (misses : dispatcher.resolve name (arguments.map Value.ty) = none) :
    dispatcher.tryInvoke name arguments = pure (.error (dispatcher.missing name arguments)) := by
  simp only [tryInvoke, misses]

section

variable {site : CallSite ρ ε}
  (resolves : dispatcher.resolve name (arguments.map Value.ty) = some site)
include resolves

theorem tryInvoke_of_declines (declines : site.invoke arguments = pure none) :
    dispatcher.tryInvoke name arguments = pure (.error (dispatcher.missing name arguments)) := by
  simp only [tryInvoke, resolves, declines, pure_bind]

theorem tryInvoke_of_runs {body : StateM ρ (Except ε Value)}
    (runs : site.invoke arguments = some <$> body) :
    dispatcher.tryInvoke name arguments = Except.ok <$> body := by
  simp only [tryInvoke, resolves, runs, bind_map_left]
  exact (map_eq_pure_bind Except.ok body).symm

/-- A send depends on the site that it resolves to, and else on what a miss reports. -/
theorem tryInvoke_congr {other : Dispatcher ρ ε} {otherSite : CallSite ρ ε}
    (otherResolves : other.resolve name (arguments.map Value.ty) = some otherSite)
    (sameInvocation : site.invoke arguments = otherSite.invoke arguments)
    (sameMissing : dispatcher.missing name arguments = other.missing name arguments) :
    dispatcher.tryInvoke name arguments = other.tryInvoke name arguments := by
  simp only [tryInvoke, resolves, otherResolves, sameInvocation, sameMissing]

end

end Dispatcher

end MultiDispatch
