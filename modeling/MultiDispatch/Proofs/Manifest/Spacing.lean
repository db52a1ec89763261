import MultiDispatch.Proofs.Manifest.Source

/-!
# What gaps are filled with

Two texts that lay out the same tokens are both accepted, with the same
declarations, or both refused: nothing depends on the spacing and the comments
between tokens.  Two places are not between tokens in this sense.  A default text
is opaque, so that a comment behind it is read as part of it and ends it at its
first comma; and a comment inside the parentheses of a type stays in the name of
the type.
-/

theorem Except.toOption_eq_some_iff {ε α : Type} {result : Except ε α} {value : α} :
    result.toOption = some value ↔ result = .ok value := by
  cases result <;> simp [Except.toOption]

namespace MultiDispatch.Manifest

namespace Filling

/-- Spacing inside the parentheses of a type, and behind a default text what reads as
default text. -/
def insignificant : Filling where
  inTypes gap := ∀ character ∈ gap, IsSpacing character
  behindDefaults := readable.behindDefaults

/-- Spacing inside the parentheses of a type, and anything behind a default text. -/
def unguarded : Filling where
  inTypes gap := ∀ character ∈ gap, IsSpacing character
  behindDefaults _ := True

end Filling

section Sample

variable {filling : Filling} {gap type behindDefault : String}

/-- Tokens as they are written, each with the gap behind it. -/
def written (pieces : List (Token × String × String)) : List Char :=
  pieces.flatMap fun (_, spelling, gap) => spelling.toList ++ gap.toList

theorem layout_written {pieces : List (Token × String × String)}
    (each : ∀ piece ∈ pieces, piece.1.WrittenAs filling piece.2.1.toList ∧
      piece.1.AllowsBehind filling piece.2.2.toList ∧ piece.2.2 ≠ "") :
    Layout filling (pieces.map Prod.fst) (written pieces) [] := by
  induction pieces with
  | nil => exact .nil []
  | cons piece pieces inductionHypothesis =>
      obtain ⟨⟨isWritten, allowed, nonempty⟩, others⟩ := List.forall_mem_cons.mp each
      have apart : ¬Fuses piece.2.1.toList (piece.2.2.toList ++ written pieces) := by
        apply Fuses.not_of_avoids
        apply allowed.isGap.avoids_append (fun _ => not_isWordChar_of_opensGap)
        intro none
        exact absurd (String.toList_eq_nil_iff.mp none) nonempty
      have layout := Layout.cons isWritten allowed apart (inductionHypothesis others)
      rwa [← List.append_assoc] at layout

/-- A method with one parameter, which has a type with arguments and a default. -/
def sample : List BlockSource :=
  [⟨[], "Foo", [⟨[], "f", [⟨"x", ["Hash(String,Int32)"], some "1"⟩], false, []⟩]⟩]

/-- The sample with one gap behind all its tokens except the default. -/
def samplePieces (gap type behindDefault : String) : List (Token × String × String) :=
  [(.symbol "type", "type", gap), (.name .path "Foo", "Foo", gap), (.symbol "\x7b", "\x7b", gap),
    (.symbol "def", "def", gap), (.name .method "f", "f", gap), (.symbol "(", "(", gap),
    (.name .parameter "x", "x", gap), (.symbol ":", ":", gap),
    (.type "Hash(String,Int32)", type, gap),
    (.symbol "=", "=", gap), (.default "1", "1", behindDefault), (.symbol ")", ")", gap),
    (.symbol "\x7d", "\x7d", gap)]

def sampleText (gap type behindDefault : String) : String :=
  String.ofList (written (samplePieces gap type behindDefault))

theorem laysOut_sampleText (nonempty : gap ≠ "") (isGap : IsGap gap.toList)
    (isType : TypeText filling.inTypes .name type.toList)
    (solid : Text.withoutBlanks type.toList = "Hash(String,Int32)".toList)
    (nonemptyBehind : behindDefault ≠ "") (isGapBehind : IsGap behindDefault.toList)
    (allowed : filling.behindDefaults behindDefault.toList) :
    LaysOut filling sample (sampleText gap type behindDefault) := by
  refine ⟨[], _, String.toList_ofList, .nil, ?_⟩
  have isText : Scan.defaultText "1".toList = some [] := by cbv
  have settled : Avoids OpensGap ['1'] := by simp [OpensGap, IsSpacing, IsLineEnd]
  have symbol : ∀ mark ∈ keywords ++ symbols, (Token.symbol mark).WrittenAs filling mark.toList ∧
      (Token.symbol mark).AllowsBehind filling gap.toList ∧ gap ≠ "" :=
    fun mark known => ⟨⟨known, rfl⟩, isGap, nonempty⟩
  refine @layout_written _ (samplePieces gap type behindDefault) ?_
  simp only [samplePieces, List.forall_mem_cons]
  exact ⟨symbol "type" (by decide), ⟨⟨by decide +kernel, rfl⟩, isGap, nonempty⟩,
    symbol "\x7b" (by decide), symbol "def" (by decide),
    ⟨⟨by decide +kernel, rfl⟩, isGap, nonempty⟩,
    symbol "(" (by decide), ⟨⟨by decide +kernel, rfl⟩, isGap, nonempty⟩, symbol ":" (by decide),
    ⟨⟨isType, solid⟩, isGap, nonempty⟩, symbol "=" (by decide),
    ⟨⟨isText, settled, rfl⟩, ⟨isGapBehind, allowed⟩, nonemptyBehind⟩, symbol ")" (by decide),
    symbol "\x7d" (by decide), by simp⟩

/-- The type of the sample with such gaps behind the parenthesis, its first argument
and the comma. -/
theorem typeText_sample {opening first comma : List Char} (opens : filling.inTypes opening)
    (behindFirst : filling.inTypes first) (behindComma : filling.inTypes comma)
    (nothing : filling.inTypes []) :
    TypeText filling.inTypes .name ("Hash".toList ++ '(' :: (opening ++ ("String".toList ++ first ++
      ',' :: (comma ++ ("Int32".toList ++ [] ++ [')']))))) :=
  .applied (by decide +kernel) opens
    (.next (.only (.path (by decide +kernel)) behindFirst) behindComma
    (.last (.only (.path (by decide +kernel)) nothing)))

theorem isGap_space : IsGap " ".toList := .spacing (.inl rfl) .nil

theorem laysOut_plain (nothing : filling.inTypes []) (space : filling.behindDefaults " ".toList) :
    LaysOut filling sample (sampleText " " "Hash(String,Int32)" " ") :=
  laysOut_sampleText (by decide) isGap_space (typeText_sample nothing nothing nothing nothing)
    (by decide) (by decide) isGap_space space

end Sample

/-- How the gaps of a manifest are filled does not matter. -/
theorem parse_eq_of_laysOut {sources : List BlockSource} {first second : String}
    (firstLaysOut : LaysOut .insignificant sources first)
    (secondLaysOut : LaysOut .insignificant sources second) :
    (parse first).toOption = (parse second).toOption := by
  have declares_iff : ∀ {text : String}, LaysOut .insignificant sources text →
      ∀ decls, (parse text).toOption = some decls ↔
        Declare (sources.map BlockSource.outline) decls := by
    intro text laysOut decls
    have readable : LaysOut .readable sources text :=
      laysOut.mono (fun _ => IsGap.of_isSpacing) (fun _ allowed => allowed)
    rw [Except.toOption_eq_some_iff, parse_eq_ok_iff_of_laysOut readable]
  refine Option.ext fun decls => ?_
  rw [declares_iff firstLaysOut, declares_iff secondLaysOut]

theorem parse_eq_of_laysOut_sample :
    let plain := sampleText " " "Hash(String,Int32)" " "
    let commented := sampleText " # it's (,\n\t" "Hash(\tString ,\n Int32)"
      "\r\n # one [a, b] 'c'\n"
    LaysOut .insignificant sample plain ∧ LaysOut .insignificant sample commented ∧
      (parse plain).toOption = (parse commented).toOption := by
  intro plain commented
  have plainLaysOut : LaysOut .insignificant sample plain :=
    laysOut_plain (by simp [Filling.insignificant])
      (Scan.skipMany_defaultItem_of_isPlain (by simp [Scan.IsPlain]))
  have isGap : IsGap " # it's (,\n\t".toList :=
    .spacing (.inl rfl) (@IsGap.comment " it's (,".toList '\n' ['\t'] (by simp [IsLineEnd])
      (.inl rfl)
      (.spacing (.inr (.inl rfl)) .nil))
  have isGapBehind : IsGap "\r\n # one [a, b] 'c'\n".toList :=
    .spacing (.inr (.inr (.inr rfl))) (.spacing (.inr (.inr (.inl rfl))) (.spacing (.inl rfl)
      (@IsGap.comment " one [a, b] 'c'".toList '\n' [] (by simp [IsLineEnd]) (.inl rfl) .nil)))
  have isType : TypeText Filling.insignificant.inTypes .name "Hash(\tString ,\n Int32)".toList :=
    @typeText_sample .insignificant ['\t'] [' '] ['\n', ' ']
      (by simp [Filling.insignificant, IsSpacing])
      (by simp [Filling.insignificant, IsSpacing])
      (by simp [Filling.insignificant, IsSpacing, IsLineEnd]) (by simp [Filling.insignificant])
  have isText : Scan.skipMany Scan.defaultItem Scan.shortens_defaultItem
      "\r\n # one [a, b] 'c'\n".toList = [] := by decide +kernel
  have commentedLaysOut : LaysOut .insignificant sample commented :=
    laysOut_sampleText (by decide) isGap isType (by decide) (by decide) isGapBehind isText
  exact ⟨plainLaysOut, commentedLaysOut, parse_eq_of_laysOut plainLaysOut commentedLaysOut⟩

/-- Behind a default and inside a type a comment changes what is declared. -/
theorem comment_is_significant :
    let plain := sampleText " " "Hash(String,Int32)" " "
    let commented := sampleText " " "Hash(String,Int32)" " # a, b\n"
    LaysOut .unguarded sample plain ∧ LaysOut .unguarded sample commented ∧
      (parse plain).toOption ≠ (parse commented).toOption ∧
      (parse "type Foo \x7b def f(x : Hash(String, Int32)) \x7d").toOption ≠
        (parse "type Foo \x7b def f(x : Hash(String, # c\n Int32)) \x7d").toOption := by
  intro plain commented
  have isGap : IsGap " # a, b\n".toList :=
    .spacing (.inl rfl) (@IsGap.comment " a, b".toList '\n' [] (by simp [IsLineEnd])
      (.inl rfl) .nil)
  have nothing : Filling.unguarded.inTypes [] := by simp [Filling.unguarded]
  have commentedLaysOut : LaysOut .unguarded sample commented :=
    laysOut_sampleText (by decide) isGap_space (typeText_sample nothing nothing nothing nothing)
      (by decide) (by decide) isGap trivial
  -- what stands behind the comma of the comment is one more parameter
  have moreParameters : (parse plain).toOption ≠ (parse commented).toOption :=
    mt (congrArg (Option.map fun decls => decls.map fun decl => decl.methods.map fun method =>
      method.parameters.length)) (by decide +kernel)
  exact ⟨laysOut_plain nothing trivial, commentedLaysOut, moreParameters, by decide +kernel⟩

end MultiDispatch.Manifest
