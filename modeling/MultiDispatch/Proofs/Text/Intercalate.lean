import Mathlib.Data.List.Basic

/-!
# Lists with a separator between

Of a list that is put together with a separator, what it holds comes from the
separator or from one of the parts.
-/

namespace MultiDispatch.Text

variable {α β : Type} {separator : List α} {lists : List (List α)}

theorem intercalate_cons (separator first : List α) (others : List (List α)) :
    separator.intercalate (first :: others) = first ++ others.flatMap (separator ++ ·) := by
  induction others generalizing first with
  | nil => simp
  | cons second others inductionHypothesis =>
      rw [List.intercalate_cons_cons, inductionHypothesis, List.flatMap_cons]
      simp only [List.append_assoc]

theorem map_intercalate (f : α → β) (separator : List α) (lists : List (List α)) :
    (separator.intercalate lists).map f =
      (separator.map f).intercalate (lists.map (List.map f)) := by
  cases lists with
  | nil => rfl
  | cons => simp [intercalate_cons, List.map_flatMap, List.flatMap_map]

theorem forall_mem_intercalate {P : α → Prop} (onSeparator : ∀ value ∈ separator, P value)
    (onLists : ∀ list ∈ lists, ∀ value ∈ list, P value) :
    ∀ value ∈ separator.intercalate lists, P value := by
  cases lists with
  | nil => simp
  | cons first others =>
      obtain ⟨onFirst, onOthers⟩ := List.forall_mem_cons.mp onLists
      rw [intercalate_cons, List.forall_mem_append, List.forall_mem_flatMap]
      exact ⟨onFirst, fun list inside =>
        List.forall_mem_append.mpr ⟨onSeparator, onOthers list inside⟩⟩

theorem mem_intercalate {list : List α} {value : α} (isList : list ∈ lists)
    (inside : value ∈ list) : value ∈ separator.intercalate lists := by
  cases lists with
  | nil => cases isList
  | cons first others =>
      rw [intercalate_cons, List.mem_append, List.mem_flatMap]
      rcases List.mem_cons.mp isList with rfl | isOther
      · exact .inl inside
      · exact .inr ⟨list, isOther, List.mem_append_right _ inside⟩

end MultiDispatch.Text
