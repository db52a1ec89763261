import Mathlib.Data.List.Basic

/-!
# Encodings that can be told from what follows

An encoding is unambiguous up to the tails where it ends when a text splits into
an encoded value and such a tail in at most one way.  What is written one after
the other, or with a separator between, stays unambiguous as long as a separator
ends what stands before it.
-/

namespace MultiDispatch.Text

variable {α β : Type}

/-- Of the values that are `Valid`, a text begins with the encoding of at most one
that leaves a tail where the encoding `Ends`. -/
def Unambiguous (encode : α → List Char) (Valid : α → Prop) (Ends : List Char → Prop) : Prop :=
  ∀ ⦃first second : α⦄ ⦃firstTail secondTail : List Char⦄, Valid first → Valid second →
    Ends firstTail → Ends secondTail →
    encode first ++ firstTail = encode second ++ secondTail →
      first = second ∧ firstTail = secondTail

/-- What stands before the first `closer` can be told from what stands behind it. -/
theorem append_cons_inj {closer : Char} {first second firstTail secondTail : List Char}
    (firstOpen : closer ∉ first) (secondOpen : closer ∉ second)
    (same : first ++ closer :: firstTail = second ++ closer :: secondTail) :
    first = second ∧ firstTail = secondTail := by
  rcases List.append_eq_append_iff.mp same with ⟨more, rfl, rest⟩ | ⟨more, rfl, rest⟩
  · cases more with
    | nil => simpa using rest
    | cons _ _ => simp_all
  · cases more with
    | nil => simpa [eq_comm] using rest
    | cons _ _ => simp_all

/-- What can follow an item of a separated list. -/
inductive SeparatedTail (separator : List Char) : List Char → Prop
  | last : SeparatedTail separator []
  | more (rest : List Char) : SeparatedTail separator (separator ++ rest)

theorem exists_intercalate_cons (separator item : List Char) (items : List (List Char)) :
    ∃ tail, SeparatedTail separator tail ∧
      separator.intercalate (item :: items) = item ++ tail := by
  cases items with
  | nil => exact ⟨[], .last, by simp⟩
  | cons next items =>
      refine ⟨separator ++ separator.intercalate (next :: items), .more _, ?_⟩
      rw [List.intercalate_cons_cons, List.append_assoc]

namespace Unambiguous

variable {encode : α → List Char} {Valid : α → Prop} {Ends : List Char → Prop}

theorem eq_of_encode_eq (unambiguous : Unambiguous encode Valid Ends) (ends : Ends [])
    {first second : α} (firstValid : Valid first) (secondValid : Valid second)
    (same : encode first = encode second) : first = second :=
  (unambiguous firstValid secondValid ends ends (congrArg (· ++ []) same)).1

/-- Where every tail ends the single encodings, a sequence ends where none begins. -/
theorem flatMap (unambiguous : Unambiguous encode (fun _ => True) fun _ => True) :
    Unambiguous (fun values : List α => values.flatMap encode) (fun _ => True)
      fun tail => ∀ value rest, tail ≠ encode value ++ rest := by
  intro first second firstTail secondTail _ _ firstEnds secondEnds same
  induction first generalizing second with
  | nil =>
      cases second with
      | nil => exact ⟨rfl, same⟩
      | cons value values =>
          simp only [List.flatMap_nil, List.nil_append, List.flatMap_cons,
            List.append_assoc] at same
          exact absurd same (firstEnds value _)
  | cons value values inductionHypothesis =>
      cases second with
      | nil =>
          simp only [List.flatMap_nil, List.nil_append, List.flatMap_cons,
            List.append_assoc] at same
          exact absurd same.symm (secondEnds value _)
      | cons other others =>
          simp only [List.flatMap_cons, List.append_assoc] at same
          obtain ⟨rfl, sameRest⟩ := unambiguous trivial trivial trivial trivial same
          obtain ⟨rfl, sameTail⟩ := inductionHypothesis sameRest
          exact ⟨rfl, sameTail⟩

/-- Separated values end where a single one does and no separator follows. -/
theorem intercalate (unambiguous : Unambiguous encode Valid Ends) {separator : List Char}
    (separates : ∀ rest, Ends (separator ++ rest)) :
    Unambiguous (fun values => separator.intercalate (values.map encode))
      (fun values => values ≠ [] ∧ ∀ value ∈ values, Valid value)
      fun tail => Ends tail ∧ ∀ rest, tail ≠ separator ++ rest := by
  intro first second firstTail secondTail firstValid secondValid firstEnds secondEnds same
  induction first generalizing second with
  | nil => exact absurd rfl firstValid.1
  | cons value values inductionHypothesis =>
      cases second with
      | nil => exact absurd rfl secondValid.1
      | cons other others =>
          have valid := (List.forall_mem_cons.mp firstValid.2).1
          have otherValid := (List.forall_mem_cons.mp secondValid.2).1
          cases values with
          | nil =>
              cases others with
              | nil =>
                  simp only [List.map_cons, List.map_nil, List.intercalate_singleton] at same
                  obtain ⟨rfl, sameTail⟩ :=
                    unambiguous valid otherValid firstEnds.1 secondEnds.1 same
                  exact ⟨rfl, sameTail⟩
              | cons next others =>
                  simp only [List.map_cons, List.map_nil, List.intercalate_singleton,
                    List.intercalate_cons_cons, List.append_assoc] at same
                  have sameTail := (unambiguous valid otherValid firstEnds.1 (separates _) same).2
                  exact absurd sameTail (firstEnds.2 _)
          | cons following values =>
              cases others with
              | nil =>
                  simp only [List.map_cons, List.map_nil, List.intercalate_singleton,
                    List.intercalate_cons_cons, List.append_assoc] at same
                  have sameTail := (unambiguous valid otherValid (separates _) secondEnds.1 same).2
                  exact absurd sameTail.symm (secondEnds.2 _)
              | cons next others =>
                  simp only [List.map_cons, List.intercalate_cons_cons, List.append_assoc] at same
                  obtain ⟨rfl, sameRest⟩ :=
                    unambiguous valid otherValid (separates _) (separates _) same
                  obtain ⟨sameValues, sameTail⟩ := inductionHypothesis
                    ⟨List.cons_ne_nil _ _, (List.forall_mem_cons.mp firstValid.2).2⟩
                    ⟨List.cons_ne_nil _ _, (List.forall_mem_cons.mp secondValid.2).2⟩
                    (List.append_cancel_left sameRest)
                  exact ⟨congrArg (value :: ·) sameValues, sameTail⟩

end Unambiguous

end MultiDispatch.Text
