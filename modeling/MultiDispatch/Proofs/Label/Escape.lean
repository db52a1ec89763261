import MultiDispatch.Label
import MultiDispatch.Proofs.Text.Digits
import MultiDispatch.Proofs.Text.Unambiguous

/-!
# Reading escaped names back

A name is a sequence of signs: single characters and the double colon.  The
written forms of the signs are a prefix code, because a letter or digit stands
for itself and the word of any other sign runs up to the next underscore.  So an
escaped name can be told from whatever follows it and begins with no sign, such
as a separator.
-/

namespace MultiDispatch.Label

open Text (Unambiguous)

/-- The characters with a word of their own. -/
def marks : List Char := "()<>=!~+-*/%&?[],|_:.^".toList

section Words

variable {character : Char} {found : String}

theorem mem_marks_of_word? (isWord : word? character = some found) : character ∈ marks := by
  unfold word? at isWord
  split at isWord <;> first | decide | cases isWord

/-- What all marks and their words pass. -/
theorem passes_of_word? {P : Char → String → Bool}
    (table : marks.all fun mark => (word? mark).all (P mark))
    (isWord : word? character = some found) : P character found := by
  have passes := List.all_eq_true.mp table character (mem_marks_of_word? isWord)
  rwa [isWord] at passes

theorem word_of_word? (isWord : word? character = some found) : word character = found.toList := by
  rw [word, isWord]

theorem word_of_word?_none (wordless : word? character = none) :
    word character = 'u' :: Nat.toDigits 16 character.toNat := by
  rw [word, wordless]

theorem mem_hexadecimals {digit : Char} {number : Nat} (inside : digit ∈ Nat.toDigits 16 number) :
    digit ∈ "0123456789abcdef".toList :=
  Text.mem_of_mem_toDigits (by decide) (by decide) inside

theorem isAlphanum_of_mem_word {letter : Char} (inside : letter ∈ word character) :
    letter.isAlphanum := by
  cases isWord : word? character with
  | some found =>
      rw [word_of_word? isWord] at inside
      have allLetters : found.toList.all Char.isAlphanum :=
        passes_of_word? (P := fun _ word => word.toList.all Char.isAlphanum) (by decide) isWord
      exact List.all_eq_true.mp allLetters letter inside
  | none =>
      rw [word_of_word?_none isWord] at inside
      rcases List.mem_cons.mp inside with rfl | isDigit
      · decide
      · have allDigits : "0123456789abcdef".toList.all Char.isAlphanum := by decide
        exact List.all_eq_true.mp allDigits letter (mem_hexadecimals isDigit)

theorem exists_word_eq_cons (character : Char) :
    ∃ first rest, word character = first :: rest ∧ first.isLower := by
  cases isWord : word? character with
  | some found =>
      rw [word_of_word? isWord]
      have begins : found.toList.head?.any Char.isLower :=
        passes_of_word? (P := fun _ word => word.toList.head?.any Char.isLower)
          (by decide) isWord
      obtain ⟨first, isFirst, lower⟩ := (Option.any_eq_true _ _).mp begins
      obtain ⟨rest, same⟩ := List.head?_eq_some_iff.mp isFirst
      exact ⟨first, rest, same, lower⟩
  | none => exact ⟨'u', _, word_of_word?_none isWord, by decide⟩

/-- No mark has a word of the form of a code point. -/
theorem word?_ne_codePoint (isWord : word? character = some found) (number : Nat) :
    found.toList ≠ 'u' :: Nat.toDigits 16 number := by
  intro same
  have hasS := passes_of_word?
    (P := fun _ word => word.toList.head? = some 'u' → 's' ∈ word.toList.tail)
    (by decide) isWord
  rw [decide_eq_true_iff, same] at hasS
  have impossible := mem_hexadecimals (hasS rfl)
  revert impossible
  decide

theorem word_injective {first second : Char} (same : word first = word second) :
    first = second := by
  cases firstWord : word? first with
  | some found =>
      rw [word_of_word? firstWord] at same
      cases secondWord : word? second with
      | some other =>
          rw [word_of_word? secondWord] at same
          rw [String.toList_inj.mp same] at firstWord
          have unique := passes_of_word? (P := fun mark word =>
            marks.all fun other => word? other = some word → mark = other) (by decide) firstWord
          have settled := List.all_eq_true.mp unique second (mem_marks_of_word? secondWord)
          exact of_decide_eq_true settled secondWord
      | none =>
          rw [word_of_word?_none secondWord] at same
          exact absurd same (word?_ne_codePoint firstWord _)
  | none =>
      rw [word_of_word?_none firstWord] at same
      cases secondWord : word? second with
      | some other =>
          rw [word_of_word? secondWord] at same
          exact absurd same.symm (word?_ne_codePoint secondWord _)
      | none =>
          rw [word_of_word?_none secondWord, List.cons.injEq] at same
          have samePoint := Text.toDigits_injective (by decide) (by decide) same.2
          exact Char.toNat_inj.mp samePoint

/-- The words that stand between names are no words of characters. -/
theorem word_ne_of_mem {reserved : List Char}
    (isReserved : reserved ∈ ["cc".toList, "or".toList, "none".toList]) :
    word character ≠ reserved := by
  cases isWord : word? character with
  | some found =>
      rw [word_of_word? isWord]
      have unreserved := passes_of_word? (P := fun _ word =>
        word.toList ∉ ["cc".toList, "or".toList, "none".toList]) (by decide) isWord
      rintro rfl
      exact of_decide_eq_true unreserved isReserved
  | none =>
      rw [word_of_word?_none isWord]
      rintro rfl
      simp at isReserved

end Words

/-- What is escaped as a whole. -/
inductive Sign where
  | single (character : Char)
  | colons

namespace Sign

def text : Sign → List Char
  | .single character => [character]
  | .colons => [':', ':']

/-- Signs that stand for themselves. -/
def IsPlain : Sign → Prop
  | .single character => character.isAlphanum
  | .colons => False

def word : Sign → List Char
  | .single character => Label.word character
  | .colons => "cc".toList

def written : Sign → List Char
  | .single character => escapeChar character
  | .colons => '_' :: "cc".toList ++ ['_']

def ofName : List Char → List Sign
  | ':' :: ':' :: rest => .colons :: ofName rest
  | character :: rest => .single character :: ofName rest
  | [] => []

theorem flatMap_text_ofName (name : List Char) : (ofName name).flatMap text = name := by
  fun_induction ofName name with
  | case1 rest inductionHypothesis => simp [text, inductionHypothesis]
  | case2 character rest _ inductionHypothesis => simp [text, inductionHypothesis]
  | case3 => rfl

theorem flatMap_written_ofName (name : List Char) :
    (ofName name).flatMap written = escapeChars name := by
  fun_induction ofName name with
  | case1 rest inductionHypothesis => simp [written, escapeChars, inductionHypothesis]
  | case2 character rest single inductionHypothesis =>
      rw [List.flatMap_cons, inductionHypothesis, escapeChars]
      · rfl
      · exact single
  | case3 => rfl

theorem exists_written_of_isPlain {sign : Sign} (plain : sign.IsPlain) :
    ∃ letter, letter.isAlphanum ∧ sign = .single letter ∧ sign.written = [letter] := by
  cases sign with
  | single letter => exact ⟨letter, plain, rfl, if_pos plain⟩
  | colons => exact absurd plain id

theorem written_of_not_isPlain {sign : Sign} (coded : ¬sign.IsPlain) :
    sign.written = '_' :: (sign.word ++ ['_']) := by
  cases sign with
  | single letter => exact if_neg coded
  | colons => rfl

theorem word_injective {first second : Sign} (same : first.word = second.word) :
    first = second := by
  cases first with
  | single _ =>
      cases second with
      | single _ => exact congrArg Sign.single (Label.word_injective same)
      | colons => exact absurd same (word_ne_of_mem (by decide))
  | colons =>
      cases second with
      | single _ => exact absurd same.symm (word_ne_of_mem (by decide))
      | colons => rfl

theorem isAlphanum_of_mem_word {sign : Sign} {letter : Char} (inside : letter ∈ sign.word) :
    letter.isAlphanum := by
  cases sign with
  | single _ => exact Label.isAlphanum_of_mem_word inside
  | colons =>
      have allLetters : "cc".toList.all Char.isAlphanum := by decide
      exact List.all_eq_true.mp allLetters letter inside

theorem underscore_notMem_word (sign : Sign) : '_' ∉ sign.word := by
  intro inside
  have impossible := isAlphanum_of_mem_word inside
  revert impossible
  decide

theorem exists_word_eq_cons (sign : Sign) :
    ∃ first rest, sign.word = first :: rest ∧ first.isLower := by
  cases sign with
  | single character => exact Label.exists_word_eq_cons character
  | colons => exact ⟨'c', ['c'], rfl, by decide⟩

theorem cons_underscore_ne_written {sign : Sign} (plain : sign.IsPlain) (tail rest : List Char) :
    '_' :: tail ≠ sign.written ++ rest := by
  obtain ⟨letter, isLetter, _, written⟩ := exists_written_of_isPlain plain
  rw [written]
  intro same
  obtain ⟨rfl, _⟩ := List.cons.inj same
  revert isLetter
  decide

/-- The written signs are a prefix code. -/
theorem unambiguous_written : Unambiguous written (fun _ => True) fun _ => True := by
  intro first second firstTail secondTail _ _ _ _ same
  by_cases firstPlain : first.IsPlain
  · by_cases secondPlain : second.IsPlain
    · obtain ⟨_, _, rfl, firstWritten⟩ := exists_written_of_isPlain firstPlain
      obtain ⟨_, _, rfl, secondWritten⟩ := exists_written_of_isPlain secondPlain
      rw [firstWritten, secondWritten] at same
      obtain ⟨rfl, sameTail⟩ := List.cons.inj same
      exact ⟨rfl, sameTail⟩
    · rw [written_of_not_isPlain secondPlain] at same
      exact absurd same.symm (cons_underscore_ne_written firstPlain _ _)
  · rw [written_of_not_isPlain firstPlain] at same
    by_cases secondPlain : second.IsPlain
    · exact absurd same (cons_underscore_ne_written secondPlain _ _)
    · rw [written_of_not_isPlain secondPlain] at same
      simp only [List.cons_append, List.append_assoc, List.nil_append, List.cons.injEq,
        true_and] at same
      obtain ⟨sameWord, sameTail⟩ := Text.append_cons_inj
        first.underscore_notMem_word second.underscore_notMem_word same
      exact ⟨word_injective sameWord, sameTail⟩

end Sign

/-- A name ends before a text that begins with no sign. -/
def NameEnds (tail : List Char) : Prop := ∀ (sign : Sign) rest, tail ≠ sign.written ++ rest

theorem nameEnds_nil : NameEnds [] := by
  intro sign rest same
  by_cases plain : sign.IsPlain
  · obtain ⟨_, _, _, written⟩ := Sign.exists_written_of_isPlain plain
    simp [written] at same
  · simp [Sign.written_of_not_isPlain plain] at same

/-- Words begin with a lower-case letter, so anything else behind an underscore ends a name. -/
theorem nameEnds_cons_cons {first : Char} (notLower : ¬first.isLower) (rest : List Char) :
    NameEnds ('_' :: first :: rest) := by
  intro sign tail same
  by_cases plain : sign.IsPlain
  · exact Sign.cons_underscore_ne_written plain _ _ same
  · obtain ⟨initial, others, word, lower⟩ := sign.exists_word_eq_cons
    rw [Sign.written_of_not_isPlain plain, word] at same
    simp only [List.cons_append, List.cons.injEq, true_and] at same
    obtain ⟨rfl, _⟩ := same
    exact notLower lower

/-- A word that no sign has ends a name too. -/
theorem nameEnds_reserved {reserved : List Char}
    (isReserved : reserved ∈ ["or".toList, "none".toList])
    (rest : List Char) : NameEnds ('_' :: (reserved ++ '_' :: rest)) := by
  intro sign tail same
  by_cases plain : sign.IsPlain
  · exact Sign.cons_underscore_ne_written plain _ _ same
  · rw [Sign.written_of_not_isPlain plain] at same
    simp only [List.cons_append, List.append_assoc, List.cons.injEq, true_and,
      List.nil_append] at same
    have noUnderscore : ∀ reserved ∈ ["or".toList, "none".toList], '_' ∉ reserved := by decide
    obtain ⟨sameWord, _⟩ := Text.append_cons_inj
      (noUnderscore reserved isReserved) sign.underscore_notMem_word same
    cases sign with
    | single _ =>
        exact word_ne_of_mem (List.mem_cons_of_mem _ isReserved) sameWord.symm
    | colons =>
        rw [sameWord] at isReserved
        revert isReserved
        decide

theorem unambiguous_escapeChars : Unambiguous escapeChars (fun _ => True) NameEnds := by
  intro first second firstTail secondTail _ _ firstEnds secondEnds same
  rw [← Sign.flatMap_written_ofName, ← Sign.flatMap_written_ofName] at same
  obtain ⟨sameSigns, sameTail⟩ :=
    Sign.unambiguous_written.flatMap trivial trivial firstEnds secondEnds same
  have sameName : first = second := by
    rw [← Sign.flatMap_text_ofName first, sameSigns, Sign.flatMap_text_ofName]
  exact ⟨sameName, sameTail⟩

end MultiDispatch.Label
