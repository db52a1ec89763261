import Mathlib.Data.List.Forall2

/-!
# Lists in step

What holds position by position of two lists: choices that are made at every
position are made together, traversals that can fail succeed exactly when every
step does, and what stands at one place in the one list has its counterpart at
the same place in the other.
-/

universe u v w

theorem Except.bind_eq_ok_iff {ε : Type u} {α β : Type v} {first : Except ε α}
    {next : α → Except ε β} {result : β} :
    (first >>= next) = .ok result ↔ ∃ value, first = .ok value ∧ next value = .ok result := by
  cases first <;> simp [bind, Except.bind]

theorem Except.bind_eq_error_iff {ε : Type u} {α β : Type v} {first : Except ε α}
    {next : α → Except ε β} {fault : ε} :
    (first >>= next) = .error fault ↔
      first = .error fault ∨ ∃ value, first = .ok value ∧ next value = .error fault := by
  cases first <;> simp [bind, Except.bind]

namespace List

variable {α : Type u} {β : Type v} {γ : Type w}

theorem pairwise_snd_lt_zipIdx (items : List α) :
    items.zipIdx.Pairwise fun earlier later => earlier.2 < later.2 := by
  rw [← pairwise_map (f := Prod.snd) (R := (· < ·)), zipIdx_map_snd]
  exact pairwise_lt_range'

/-- A choice for each position is a list of choices. -/
theorem forall₂_exists_iff {R : α → β → Prop} {S : β → γ → Prop} {firsts : List α}
    {thirds : List γ} :
    Forall₂ (fun first third => ∃ second, R first second ∧ S second third) firsts thirds ↔
      ∃ seconds, Forall₂ R firsts seconds ∧ Forall₂ S seconds thirds := by
  constructor
  · intro chosen
    induction chosen with
    | nil => exact ⟨[], .nil, .nil⟩
    | cons head _ inductionHypothesis =>
        obtain ⟨second, before, after⟩ := head
        obtain ⟨seconds, allBefore, allAfter⟩ := inductionHypothesis
        exact ⟨second :: seconds, .cons before allBefore, .cons after allAfter⟩
  · intro chosen
    obtain ⟨seconds, allBefore, allAfter⟩ := chosen
    induction allBefore generalizing thirds with
    | nil =>
        cases allAfter
        exact .nil
    | cons before _ inductionHypothesis =>
        cases allAfter with
        | cons after allAfter => exact .cons ⟨_, before, after⟩ (inductionHypothesis allAfter)

/-- Counterparts for all items are found one by one. -/
theorem exists_forall₂_iff {R : α → β → Prop} {lefts : List α} :
    (∃ rights, Forall₂ R lefts rights) ↔ ∀ left ∈ lefts, ∃ right, R left right := by
  induction lefts with
  | nil => simp
  | cons left lefts inductionHypothesis =>
      rw [forall_mem_cons, ← inductionHypothesis]
      constructor
      · intro found
        obtain ⟨_, inStep⟩ := found
        cases inStep with
        | cons head tail => exact ⟨⟨_, head⟩, _, tail⟩
      · intro found
        obtain ⟨⟨right, head⟩, rights, tail⟩ := found
        exact ⟨right :: rights, .cons head tail⟩

/-- Where something present is related at every position, all is present. -/
theorem forall₂_exists_some_iff {R : α → β → Prop} {found : List (Option α)} {rights : List β} :
    Forall₂ (fun option right => ∃ left, option = some left ∧ R left right) found rights ↔
      ∃ lefts, found = lefts.map some ∧ Forall₂ R lefts rights := by
  have allPresent : ∀ lefts : List α,
      Forall₂ (fun option left => option = some left) found lefts ↔ found = lefts.map some := by
    intro lefts
    rw [← forall₂_eq_eq_eq, forall₂_map_right_iff]
  simp only [forall₂_exists_iff, allPresent]

/-- A traversal that stops at the first error succeeds when no step has one. -/
theorem mapM_eq_ok_iff {ε : Type u} {step : α → Except ε β} {items : List α} {results : List β} :
    items.mapM step = .ok results ↔
      Forall₂ (fun item result => step item = .ok result) items results := by
  induction items generalizing results with
  | nil => simp [pure, Except.pure, eq_comm]
  | cons item items inductionHypothesis =>
      simp only [mapM_cons, forall₂_cons_left_iff, Except.bind_eq_ok_iff, inductionHypothesis]
      constructor
      · intro traversed
        obtain ⟨result, first, others, rest, same⟩ := traversed
        cases same
        exact ⟨result, others, first, rest, rfl⟩
      · intro traversed
        obtain ⟨result, others, first, rest, rfl⟩ := traversed
        exact ⟨result, first, others, rest, rfl⟩

/-- The error of a traversal is that of the first step that has one. -/
theorem mapM_eq_error_iff {ε : Type u} {step : α → Except ε β} {items : List α} {fault : ε} :
    items.mapM step = .error fault ↔
      ∃ before item after, items = before ++ item :: after ∧
        (∀ earlier ∈ before, ∃ result, step earlier = .ok result) ∧ step item = .error fault := by
  induction items with
  | nil => simp [pure, Except.pure]
  | cons first rest inductionHypothesis =>
      have onward : (first :: rest).mapM step = .error fault ↔ step first = .error fault ∨
          (∃ result, step first = .ok result) ∧ rest.mapM step = .error fault := by
        rw [mapM_cons]
        cases step first <;> cases rest.mapM step <;> simp [bind, Except.bind, pure, Except.pure]
      rw [onward, inductionHypothesis]
      constructor
      · intro failed
        rcases failed with here | ⟨passes, before, item, after, rfl, passed, fails⟩
        · exact ⟨[], first, rest, rfl, by simp, here⟩
        · exact ⟨first :: before, item, after, rfl, forall_mem_cons.mpr ⟨passes, passed⟩, fails⟩
      · intro failed
        obtain ⟨before, item, after, whole, passed, fails⟩ := failed
        cases before with
        | nil =>
            cases whole
            exact .inl fails
        | cons _ before =>
            cases whole
            obtain ⟨passes, passed⟩ := forall_mem_cons.mp passed
            exact .inr ⟨passes, before, item, after, rfl, passed, fails⟩

/-- A run that fails has a first step that does, at what the steps before it led to. -/
theorem foldlM_eq_error_iff {ε : Type u} {step : β → α → Except ε β} {start : β}
    {items : List α} {fault : ε} :
    items.foldlM step start = .error fault ↔
      ∃ before item after reached, items = before ++ item :: after ∧
        before.foldlM step start = .ok reached ∧ step reached item = .error fault := by
  constructor
  · intro failed
    induction items generalizing start with
    | nil => cases failed
    | cons first rest inductionHypothesis =>
        rw [foldlM_cons, Except.bind_eq_error_iff] at failed
        rcases failed with here | ⟨next, passes, failed⟩
        · exact ⟨[], first, rest, start, rfl, rfl, here⟩
        · obtain ⟨before, item, after, reached, rfl, ran, fails⟩ := inductionHypothesis failed
          refine ⟨first :: before, item, after, reached, rfl, ?_, fails⟩
          rw [foldlM_cons, passes]
          exact ran
  · intro failed
    obtain ⟨before, item, after, reached, rfl, ran, fails⟩ := failed
    rw [foldlM_append, ran, Except.bind_eq_error_iff]
    refine .inr ⟨reached, rfl, ?_⟩
    rw [foldlM_cons, fails]
    rfl

/-- To gather the results on the way is to gather them in the end. -/
theorem foldlM_return {m : Type v → Type w} [Monad m] [LawfulMonad m] {δ : Type v}
    (step : α → m β) (add : δ → β → δ) (start : δ) (items : List α) :
    items.foldlM (fun gathered item => return add gathered (← step item)) start =
      (fun results => results.foldl add start) <$> items.mapM step := by
  induction items generalizing start with
  | nil => simp
  | cons item items inductionHypothesis =>
      simp only [foldlM_cons, mapM_cons, bind_assoc, pure_bind, inductionHypothesis,
        map_eq_pure_bind, foldl_cons]

/-- A traversal succeeds with what the single steps found. -/
theorem mapM_eq_some_iff {step : α → Option β} {items : List α} {results : List β} :
    items.mapM step = some results ↔ items.map step = results.map some := by
  induction items generalizing results with
  | nil => cases results <;> simp
  | cons item items inductionHypothesis =>
      simp only [mapM_cons, Option.bind_eq_bind, Option.bind_eq_some_iff, Option.pure_def,
        Option.some.injEq, inductionHypothesis]
      constructor
      · intro traversed
        obtain ⟨result, first, others, rest, rfl⟩ := traversed
        simp [first, rest]
      · intro found
        cases results with
        | nil => cases found
        | cons result others =>
            obtain ⟨first, rest⟩ := List.cons.inj found
            exact ⟨result, first, others, rest, rfl⟩

namespace Forall₂

variable {R : α → β → Prop} {lefts : List α} {rights : List β}

theorem exists_getElem?_right (inStep : Forall₂ R lefts rights) {place : Nat} {left : α}
    (found : lefts[place]? = some left) : ∃ right, rights[place]? = some right ∧ R left right := by
  induction inStep generalizing place with
  | nil => simp at found
  | cons head _ inductionHypothesis =>
      cases place with
      | zero =>
          cases found
          exact ⟨_, rfl, head⟩
      | succ place =>
          rw [getElem?_cons_succ] at found ⊢
          exact inductionHypothesis found

theorem exists_getElem?_left (inStep : Forall₂ R lefts rights) {place : Nat} {right : β}
    (found : rights[place]? = some right) : ∃ left, lefts[place]? = some left ∧ R left right :=
  exists_getElem?_right (R := fun right left => R left right) inStep.flip found

theorem exists_of_mem_right (inStep : Forall₂ R lefts rights) {right : β} (inside : right ∈ rights) :
    ∃ left ∈ lefts, R left right := by
  obtain ⟨place, found⟩ := mem_iff_getElem?.mp inside
  obtain ⟨left, counterpart, related⟩ := inStep.exists_getElem?_left found
  exact ⟨left, mem_of_getElem? counterpart, related⟩

theorem exists_of_append_right {before behind : List β}
    (inStep : Forall₂ R lefts (before ++ behind)) :
    ∃ front back, lefts = front ++ back ∧ Forall₂ R front before ∧ Forall₂ R back behind :=
  ⟨_, _, (take_append_drop before.length lefts).symm, forall₂_take_append _ _ _ inStep,
    forall₂_drop_append _ _ _ inStep⟩

/-- What is kept of counterparts that agree on it is the same list. -/
theorem filterMap_eq {keep : α → Option γ} {keep' : β → Option γ}
    (inStep : Forall₂ (fun left right => keep left = keep' right) lefts rights) :
    lefts.filterMap keep = rights.filterMap keep' := by
  induction inStep with
  | nil => rfl
  | cons head _ inductionHypothesis =>
      rw [filterMap_cons, filterMap_cons, head, inductionHypothesis]

variable {κ : Type w} [BEq κ] {S : α → β → Prop} {left : List (κ × α)} {right : List (κ × β)}

theorem exists_lookup_right
    (inStep : Forall₂ (fun first second => first.1 = second.1 ∧ S first.2 second.2) left right)
    {key : κ} {value : α} (found : left.lookup key = some value) :
    ∃ other, right.lookup key = some other ∧ S value other := by
  induction inStep with
  | nil => cases found
  | @cons first second _ _ head _ inductionHypothesis =>
      obtain ⟨firstKey, firstValue⟩ := first
      obtain ⟨secondKey, secondValue⟩ := second
      obtain ⟨rfl, related⟩ := head
      rw [lookup_cons] at found ⊢
      cases here : key == firstKey with
      | true =>
          simp only [here, Option.some.injEq] at found
          exact ⟨secondValue, rfl, found ▸ related⟩
      | false =>
          simp only [here] at found
          exact inductionHypothesis found

theorem exists_lookup_left
    (inStep : Forall₂ (fun first second => first.1 = second.1 ∧ S first.2 second.2) left right)
    {key : κ} {other : β} (found : right.lookup key = some other) :
    ∃ value, left.lookup key = some value ∧ S value other := by
  have flipped : Forall₂ (fun second first => second.1 = first.1 ∧ S first.2 second.2)
      right left := inStep.flip.imp fun _ _ related => ⟨related.1.symm, related.2⟩
  exact exists_lookup_right (S := fun second first => S first second) flipped found

end Forall₂

end List
