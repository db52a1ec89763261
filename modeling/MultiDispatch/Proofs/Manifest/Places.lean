import MultiDispatch.Proofs.Manifest.WellFormed

/-!
# Places

A piece of a manifest that is laid out by successive tokens of its blocks, and what
stands before and behind it.  The piece ends with the text of its last token; the gap
behind that is not part of it.
-/

namespace MultiDispatch.Manifest

/-- The piece is laid out by the tokens from `opening` on to `last`; those in `prior` lay
out what stands before it, and those in `later` what stands behind it. -/
structure Stands (prior opening : List Token) (last : Token) (later : List Token)
    (before piece behind : List Char) : Prop where
  prior : ∃ gap laid, before = gap ++ laid ∧ IsGap gap ∧
    Layout .readable prior (laid ++ (piece ++ (behind ++ ['\n']))) (piece ++ (behind ++ ['\n']))
  within : ∃ opened, piece = opened ++ last.text.toList ∧
    Layout .readable opening (piece ++ (behind ++ ['\n']))
      (last.text.toList ++ (behind ++ ['\n']))
  later : Layout .readable (last :: later) (last.text.toList ++ (behind ++ ['\n'])) []

section Ended

variable {text taken tail rest : List Char}

theorem ended_append (nonempty : text ++ rest ≠ []) :
    ended (text ++ rest) = text ++ (rest ++ ['\n']) := by
  rw [ended, if_neg nonempty, List.append_assoc]

/-- Any part at the end of an ended text is ended itself. -/
theorem exists_of_ended_eq_append (same : ended text = taken ++ tail) (nonempty : tail ≠ []) :
    ∃ left, text = taken ++ left ∧ tail = left ++ ['\n'] := by
  rcases List.eq_nil_or_concat tail with nothing | ⟨left, last, rfl⟩
  · exact absurd nothing nonempty
  by_cases empty : text = []
  · simp [ended, empty] at same
  rw [ended, if_neg empty, List.concat_eq_append, ← List.append_assoc] at same
  rcases List.append_inj' same rfl with ⟨sameText, sameLast⟩
  exact ⟨left, sameText, by rw [List.concat_eq_append, sameLast]⟩

theorem eq_append_of_ended (same : ended text = taken ++ ended rest) (nonempty : rest ≠ []) :
    text = taken ++ rest := by
  have endedRest : ended rest = rest ++ ['\n'] := if_neg nonempty
  rcases exists_of_ended_eq_append same (by simp [endedRest]) with ⟨left, sameText, sameRest⟩
  rw [endedRest, List.append_left_inj] at sameRest
  rw [sameText, sameRest]

end Ended

section Places

variable {prior opening later : List Token} {last : Token} {before piece behind : List Char}
    {blocks : List BlockSource}

/-- Where a piece stands among the tokens of blocks, the text lays these blocks out. -/
theorem Stands.matches {source : String}
    (stands : Stands prior opening last later before piece behind)
    (whole : blocks.flatMap BlockSource.tokens = prior ++ (opening ++ last :: later))
    (same : source.toList = before ++ (piece ++ behind)) : Matches source blocks := by
  rcases stands.prior with ⟨gap, laid, rfl, isGap, layoutPrior⟩
  rcases stands.within with ⟨_, _, layoutOpening⟩
  refine ⟨gap, laid ++ (piece ++ (behind ++ ['\n'])), ?_, isGap, ?_⟩
  · rw [String.toList_append, same]
    simp only [List.append_assoc]
    rfl
  · rw [whole]
    exact layoutPrior.append (layoutOpening.append stands.later)

/-- What is laid out behind the first gap of a text has its place in the text. -/
theorem exists_stands_of_layouts {source left : List Char} (opened : List Char) (last : Token)
    (layoutPrior : Layout .readable prior (ended (skipGap false source))
      (ended (opened ++ last.text.toList ++ left)))
    (layoutOpening : Layout .readable opening (ended (opened ++ last.text.toList ++ left))
      (ended (last.text.toList ++ left)))
    (layoutLater : Layout .readable (last :: later) (ended (last.text.toList ++ left)) []) :
    ∃ before, source = before ++ (opened ++ last.text.toList ++ left) ∧
      Stands prior opening last later before (opened ++ last.text.toList) left := by
  have nonempty : last.text.toList ++ left ≠ [] := by
    intro nothing
    rw [nothing] at layoutLater
    exact absurd (layoutLater.length_lt (List.cons_ne_nil _ _)) (by simp [ended])
  have wholeNonempty : opened ++ last.text.toList ++ left ≠ [] := by
    rw [List.append_assoc]
    exact List.append_ne_nil_of_right_ne_nil opened nonempty
  rw [ended_append wholeNonempty] at layoutPrior layoutOpening
  rw [ended_append nonempty] at layoutOpening layoutLater
  rcases exists_ended_of_skipGap false source with ⟨gap, same, isGap⟩
  rcases layoutPrior.exists_taken with ⟨laid, sameLaid, _⟩
  refine ⟨gap ++ laid, ?_, ⟨gap, laid, rfl, isGap, ?_⟩, ⟨opened, rfl, layoutOpening⟩, layoutLater⟩
  · rw [← List.append_left_inj ['\n'], same, sameLaid]
    simp only [List.append_assoc]
  · rw [← sameLaid]
    exact layoutPrior

/-- Every token but the last of a manifest has its place. -/
theorem exists_stands_of_matches {source : String} {token : Token}
    (matching : Matches source blocks)
    (whole : blocks.flatMap BlockSource.tokens = prior ++ token :: later)
    (followed : later ≠ [])
    (plain : ∀ written, token.WrittenAs .readable written → written = token.text.toList) :
    ∃ before behind : List Char, source.toList = before ++ (token.text.toList ++ behind) ∧
      Stands prior [] token later before token.text.toList behind := by
  rcases matching with ⟨gap, laid, same, isGap, layout⟩
  rw [String.toList_append] at same
  rw [eq_ended_of_isGap isGap (layout.settled Avoids.nil) same, whole] at layout
  rcases Layout.append_iff.mp layout with ⟨middle, layoutPrior, layoutLater⟩
  rcases layoutPrior.exists_taken with ⟨taken, sameEnded, _⟩
  have placed : ∃ left, middle = ended (token.text.toList ++ left) := by
    cases layoutLater with
    | @cons _ _ written ownGap text _ isWritten _ _ more =>
        have nonempty : ownGap ++ text ≠ [] := by
          have shorter := more.length_lt followed
          apply List.append_ne_nil_of_right_ne_nil
          exact List.ne_nil_of_length_pos (Nat.zero_lt_of_lt shorter)
        rw [← List.append_assoc] at sameEnded
        rcases exists_of_ended_eq_append sameEnded nonempty with ⟨left, _, sameLeft⟩
        have solid : written ++ left ≠ [] :=
          List.append_ne_nil_of_left_ne_nil isWritten.isSettled.1 left
        exact ⟨left, by
          rw [← plain written isWritten, ended_append solid, sameLeft]⟩
  rcases placed with ⟨left, rfl⟩
  rcases exists_stands_of_layouts [] token layoutPrior (.nil _) layoutLater with
    ⟨before, sameSource, stands⟩
  exact ⟨before, left, sameSource, stands⟩

end Places

end MultiDispatch.Manifest
