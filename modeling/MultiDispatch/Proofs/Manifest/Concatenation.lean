import MultiDispatch.Proofs.Manifest.Faults
import MultiDispatch.Proofs.Manifest.WellFormed

/-!
# Manifests behind one another

A gap ends with its line, and a block with its brace.  So what is laid out in two texts
is laid out in one behind the other, and two manifests make one, unless a type of the
second has a name of the first.
-/

namespace MultiDispatch.Manifest

section Layouts

variable {filling : Filling} {tokens others : List Token} {text tail : List Char}

/-- More can stand behind a closing brace, with a gap between. -/
theorem Layout.append_behind_brace {gap : List Char}
    (layout : Layout filling (tokens ++ [.symbol "\x7d"]) text []) (isGap : IsGap gap)
    (more : Layout filling others tail []) :
    Layout filling (tokens ++ .symbol "\x7d" :: others) (text ++ (gap ++ tail)) [] := by
  rcases Layout.append_iff.mp layout with ⟨middle, before, last⟩
  cases last with
  | @cons _ _ _ ownGap _ _ isBrace allowed _ nothing =>
      cases nothing
      rcases isBrace with ⟨known, rfl⟩
      rcases before.exists_taken with ⟨taken, rfl, movable⟩
      have ownIsGap : IsGap ownGap := allowed
      have brace : Layout filling (.symbol "\x7d" :: others)
          ("\x7d".toList ++ ((ownGap ++ gap) ++ tail)) [] :=
        .cons ⟨known, rfl⟩ (ownIsGap.append isGap) (fun fuses => absurd fuses.1 (by decide)) more
      have moved := movable ("\x7d".toList ++ ((ownGap ++ gap) ++ tail)) rfl
      have whole := moved.append brace
      simpa only [List.append_assoc, List.append_nil] using whole

theorem LaysOut.append {sources others : List BlockSource} {text tail : String}
    (first : LaysOut filling sources text) (second : LaysOut filling others tail) :
    LaysOut filling (sources ++ others) (text ++ tail) := by
  rcases first with ⟨gap, laid, same, isGap, layout⟩
  rcases second with ⟨tailGap, tailLaid, sameTail, tailIsGap, tailLayout⟩
  rcases List.eq_nil_or_concat sources with rfl | ⟨init, last, rfl⟩
  · cases layout
    refine ⟨gap ++ tailGap, tailLaid, ?_, isGap.append tailIsGap, tailLayout⟩
    rw [String.toList_append, same, sameTail, List.append_nil, List.append_assoc]
  · refine ⟨gap, laid ++ (tailGap ++ tailLaid), ?_, isGap, ?_⟩
    · rw [String.toList_append, same, sameTail, List.append_assoc]
    · rw [List.concat_eq_append, List.flatMap_append, List.flatMap_singleton, last.tokens_eq,
        ← List.append_assoc] at layout
      have whole := layout.append_behind_brace tailIsGap tailLayout
      simpa [List.flatMap_append, last.tokens_eq] using whole

theorem Matches.append {sources others : List BlockSource} {first second : String}
    (firstMatches : Matches first sources) (secondMatches : Matches second others) :
    Matches (first ++ "\n" ++ second) (sources ++ others) := by
  rw [Matches, @String.append_assoc (first ++ "\n")]
  exact LaysOut.append firstMatches secondMatches

end Layouts

section Declarations

variable {outlines others : List TypeOutline} {decls otherDecls : List TypeDecl}

theorem Declare.append (declare : Declare outlines decls) (more : Declare others otherDecls)
    (apart : ∀ decl ∈ otherDecls, decl.name ∉ decls.map TypeDecl.name) :
    Declare (outlines ++ others) (decls ++ otherDecls) := by
  refine ⟨List.rel_append declare.blocks more.blocks, ?_⟩
  rw [List.map_append, List.nodup_append]
  refine ⟨declare.distinct, more.distinct, ?_⟩
  intro name inside otherName isOther same
  subst same
  rcases List.mem_map.mp isOther with ⟨decl, isDecl, rfl⟩
  exact apart decl isDecl inside

/-- The declarations up to a name that is taken belong to the outlines before it. -/
theorem Declare.exists_of_append_cons {before behind : List TypeDecl} {repeated : TypeDecl}
    (declare : Declare outlines (before ++ repeated :: behind)) :
    ∃ front outline back, outlines = front ++ outline :: back ∧ Declare front before ∧
      outline.Declares repeated := by
  rcases declare.blocks.exists_of_append_right with ⟨front, _, rfl, declares, more⟩
  cases more with
  | @cons outline _ back _ isRepeated _ =>
      refine ⟨front, outline, back, rfl, ⟨declares, ?_⟩, isRepeated⟩
      have distinct := declare.distinct
      rw [List.map_append] at distinct
      exact (List.nodup_append.mp distinct).1

end Declarations

/-- Of two accepted manifests with a line end between, the declarations are those of the
first and then those of the second; or the first type of the second that has a name of
the first is refused. -/
theorem parse_append_manifest {first second : String} {firstDecls secondDecls : List TypeDecl}
    (firstAccepted : parse first = .ok firstDecls)
    (secondAccepted : parse second = .ok secondDecls) :
    ((∀ decl ∈ secondDecls, decl.name ∉ firstDecls.map TypeDecl.name) →
        parse (first ++ "\n" ++ second) = .ok (firstDecls ++ secondDecls)) ∧
      ∀ before repeated behind, secondDecls = before ++ repeated :: behind →
        (∀ decl ∈ before, decl.name ∉ firstDecls.map TypeDecl.name) →
        repeated.name ∈ firstDecls.map TypeDecl.name →
        ∃ span, parse (first ++ "\n" ++ second) = .error (.duplicateType repeated.name span) := by
  rcases exists_laysOut_of_parse firstAccepted with ⟨sources, firstMatches, firstDeclare⟩
  rcases exists_laysOut_of_parse secondAccepted with ⟨others, secondMatches, secondDeclare⟩
  have matching : Matches (first ++ "\n" ++ second) (sources ++ others) :=
    Matches.append firstMatches secondMatches
  constructor
  · intro apart
    rw [parse_eq_ok_iff_of_matches matching, List.map_append]
    exact firstDeclare.append secondDeclare apart
  · intro before repeated behind same fresh taken
    subst same
    rcases secondDeclare.exists_of_append_cons with
      ⟨front, outline, back, sameOthers, declares, isRepeated⟩
    rcases read_manifest_of_matches matching with ⟨blocks, reads, sameOutlines⟩
    rw [List.map_append, sameOthers, ← List.append_assoc] at sameOutlines
    rcases List.map_eq_append_iff.mp sameOutlines with ⟨passed, _, rfl, samePassed, sameLeft⟩
    rcases List.map_eq_cons_iff.mp sameLeft with ⟨block, left, rfl, rfl, _⟩
    have declared := firstDeclare.append declares fresh
    rw [← samePassed] at declared
    refine ⟨block.2.span (Reader.bytes (first ++ "\n" ++ second).toList), ?_⟩
    rw [parse_of_read reads, declareAll_eq_error_iff]
    refine ⟨passed, block, left, firstDecls ++ before, rfl, ?_, .inr ⟨repeated, ?_, ?_, rfl⟩⟩
    · exact declareAll_eq_ok_iff.mpr ⟨declared, by simp⟩
    · exact TypeNode.declared_eq_ok_iff.mpr isRepeated
    · rcases List.mem_map.mp taken with ⟨other, isOther, same⟩
      exact ⟨other, by simp [isOther], same⟩

/-- The comment at the end of the first text ends with its line. -/
theorem parse_append_manifest_shelf :
    let shelf : TypeDecl := ⟨"Shelf", none, []⟩
    let box : TypeDecl := ⟨"Box", none, [⟨"Box", "put", [⟨"x", none, true⟩], none, false⟩]⟩
    let first := "type Shelf \x7b \x7d # type Box"
    let second := "type Box \x7b def put(x = 1 # (2)\n) \x7d"
    parse first = .ok [shelf] ∧ parse second = .ok [box] ∧
      parse (first ++ "\n" ++ second) = .ok [shelf, box] ∧
      parse (second ++ "\n" ++ first) = .ok [box, shelf] ∧
      ∃ span, parse (first ++ "\n" ++ (second ++ "\n" ++ first)) =
        .error (.duplicateType "Shelf" span) := by
  intro shelf box first second
  have firstAccepted : parse first = .ok [shelf] := by decide +kernel
  have secondAccepted : parse second = .ok [box] := by decide +kernel
  have both := (parse_append_manifest secondAccepted firstAccepted).1 (by decide)
  refine ⟨firstAccepted, secondAccepted,
    (parse_append_manifest firstAccepted secondAccepted).1 (by decide), both, ?_⟩
  exact (parse_append_manifest firstAccepted both).2 [box] shelf [] rfl (by decide) (by decide)

end MultiDispatch.Manifest
