import Mathlib.Data.List.Basic
import MultiDispatch.Manifest.Scan

/-!
# Gaps

Between tokens stands spacing and comments.  A gap is skipped whole in front of
anything that does not itself begin like a gap, whatever its comments say.
-/

namespace MultiDispatch.Manifest

/-- The text does not begin with such a character. -/
def Avoids (P : Char → Prop) (text : List Char) : Prop := ∀ character ∈ text.head?, ¬P character

namespace Avoids

variable {P Q : Char → Prop}

@[simp]
theorem nil : Avoids P [] := by simp [Avoids]

@[simp]
theorem cons_iff {character : Char} {text : List Char} :
    Avoids P (character :: text) ↔ ¬P character := by
  simp [Avoids]

theorem mono {text : List Char} (avoids : Avoids Q text)
    (weaker : ∀ character, P character → Q character) :
    Avoids P text :=
  fun character inside holds => avoids character inside (weaker character holds)

theorem append {text tail : List Char} (avoids : Avoids P text) (nonempty : text ≠ []) :
    Avoids P (text ++ tail) := by
  cases text with
  | nil => contradiction
  | cons character text => simpa using avoids

end Avoids

def IsLineEnd (character : Char) : Prop := character = '\n' ∨ character = '\r'

/-- Blanks and line ends. -/
def IsSpacing (character : Char) : Prop :=
  character = ' ' ∨ character = '\t' ∨ IsLineEnd character

/-- Spacing and comments, each ended by the end of its line. -/
inductive IsGap : List Char → Prop where
  | nil : IsGap []
  | spacing {character : Char} {gap : List Char} (isSpacing : IsSpacing character)
    (more : IsGap gap) :
      IsGap (character :: gap)
  | comment {text : List Char} {lineEnd : Char} {gap : List Char}
      (oneLine : ∀ character ∈ text, ¬IsLineEnd character) (isLineEnd : IsLineEnd lineEnd)
      (more : IsGap gap) : IsGap ('#' :: (text ++ lineEnd :: gap))

def OpensGap (character : Char) : Prop := IsSpacing character ∨ character = '#'

theorem skipGap_of_avoids {text : List Char} (settled : Avoids OpensGap text) :
    skipGap false text = text := by
  cases text with
  | nil => rfl
  | cons character text =>
      have opens := Avoids.cons_iff.mp settled
      simp only [OpensGap, IsSpacing, IsLineEnd, not_or] at opens
      simp [skipGap, opens]

theorem skipGap_spacing {character : Char} (isSpacing : IsSpacing character) (text : List Char) :
    skipGap false (character :: text) = skipGap false text := by
  rcases isSpacing with rfl | rfl | rfl | rfl <;> rfl

theorem skipGap_comment {text tail : List Char} {lineEnd : Char}
    (oneLine : ∀ character ∈ text, ¬IsLineEnd character) (isLineEnd : IsLineEnd lineEnd) :
    skipGap true (text ++ lineEnd :: tail) = skipGap false tail := by
  induction text with
  | nil => rcases isLineEnd with rfl | rfl <;> rfl
  | cons character text inductionHypothesis =>
      obtain ⟨here, later⟩ := List.forall_mem_cons.mp oneLine
      rw [IsLineEnd, not_or] at here
      rw [List.cons_append, skipGap, if_neg (by simp [here]), if_pos rfl]
      exact inductionHypothesis later

theorem skipGap_isSuffix (inComment : Bool) (text : List Char) :
    skipGap inComment text <:+ text := by
  fun_induction skipGap inComment text with
  | case1 => exact List.suffix_rfl
  | case2 _ _ _ _ inductionHypothesis => exact inductionHypothesis.trans (List.suffix_cons _ _)
  | case3 _ _ _ inductionHypothesis => exact inductionHypothesis.trans (List.suffix_cons _ _)
  | case4 _ _ _ _ _ _ inductionHypothesis => exact inductionHypothesis.trans (List.suffix_cons _ _)
  | case5 _ _ _ _ _ inductionHypothesis => exact inductionHypothesis.trans (List.suffix_cons _ _)
  | case6 => exact List.suffix_rfl

theorem settled_skipGap (inComment : Bool) (text : List Char) :
    Avoids OpensGap (skipGap inComment text) := by
  fun_induction skipGap inComment text with
  | case1 => exact Avoids.nil
  | case2 _ _ _ _ inductionHypothesis => exact inductionHypothesis
  | case3 _ _ _ inductionHypothesis => exact inductionHypothesis
  | case4 _ _ _ _ _ _ inductionHypothesis => exact inductionHypothesis
  | case5 _ _ _ _ _ inductionHypothesis => exact inductionHypothesis
  | case6 _ _ _ notEnd _ notBlank notComment =>
      exact Avoids.cons_iff.mpr (by simp_all [OpensGap, IsSpacing, IsLineEnd])

namespace IsGap

variable {gap : List Char}

/-- A gap is skipped up to the next thing that is no gap. -/
theorem skipGap_append (isGap : IsGap gap) {tail : List Char} (settled : Avoids OpensGap tail) :
    skipGap false (gap ++ tail) = tail := by
  induction isGap with
  | nil => exact skipGap_of_avoids settled
  | spacing isSpacing _ inductionHypothesis =>
      rw [List.cons_append, skipGap_spacing isSpacing, inductionHypothesis]
  | @comment text lineEnd gap oneLine isLineEnd _ inductionHypothesis =>
      change skipGap true (text ++ lineEnd :: gap ++ tail) = tail
      rw [List.append_assoc, List.cons_append, skipGap_comment oneLine isLineEnd,
        inductionHypothesis]

/-- A gap is either empty or begins as gaps do. -/
theorem avoids_append (isGap : IsGap gap) {P : Char → Prop} {tail : List Char}
    (apart : ∀ character, OpensGap character → ¬P character) (ends : gap = [] → Avoids P tail) :
    Avoids P (gap ++ tail) := by
  cases isGap with
  | nil => exact ends rfl
  | spacing isSpacing _ => exact Avoids.cons_iff.mpr (apart _ (.inl isSpacing))
  | comment _ _ _ => exact Avoids.cons_iff.mpr (apart _ (.inr rfl))

theorem opensGap {first : Char} (isGap : IsGap (first :: gap)) : OpensGap first := by
  cases isGap with
  | spacing isSpacing _ => exact .inl isSpacing
  | comment _ _ _ => exact .inr rfl

theorem append {more : List Char} (isGap : IsGap gap) (isMore : IsGap more) :
    IsGap (gap ++ more) := by
  induction isGap with
  | nil => exact isMore
  | spacing isSpacing _ inductionHypothesis => exact .spacing isSpacing inductionHypothesis
  | @comment text lineEnd gap oneLine isLineEnd _ inductionHypothesis =>
      rw [List.cons_append, List.append_assoc, List.cons_append]
      exact .comment oneLine isLineEnd inductionHypothesis

theorem of_isSpacing (spacing : ∀ character ∈ gap, IsSpacing character) : IsGap gap := by
  induction gap with
  | nil => exact .nil
  | cons character gap inductionHypothesis =>
      obtain ⟨here, later⟩ := List.forall_mem_cons.mp spacing
      exact .spacing here (inductionHypothesis later)

end IsGap

end MultiDispatch.Manifest
