import MultiDispatch.Proofs.Manifest.Faults
import MultiDispatch.Proofs.Manifest.Places

/-!
# Where faults are found

The span of a fault is that of a piece of the text, which is what the fault names: an
attribute of an item, or a whole block.
-/

namespace MultiDispatch.Manifest

section Bytes

theorem Reader.bytes_append (text tail : List Char) :
    bytes (text ++ tail) = bytes text + bytes tail := by
  simp only [bytes, List.map_append, List.foldr_append]
  induction text with
  | nil => exact (Nat.zero_add _).symm
  | cons character text inductionHypothesis =>
      simp only [List.map_cons, List.foldr_cons, inductionHypothesis, Nat.add_assoc]

theorem Reader.bytes_toList (text : String) : bytes text.toList = text.utf8ByteSize := by
  have ofList : ∀ characters, bytes characters = (String.ofList characters).utf8ByteSize := by
    intro characters
    induction characters with
    | nil => rfl
    | cons character characters inductionHypothesis =>
        rw [String.ofList_cons, String.utf8ByteSize_append, ← inductionHypothesis,
          String.utf8ByteSize_singleton]
        rfl
  rw [ofList, String.ofList_toList]

/-- The place of a piece of the text, counted from its end, as a span. -/
theorem span_extent (before piece behind : List Char) :
    (Reader.Extent.mk (Reader.bytes (piece ++ behind)) (Reader.bytes behind)).span
        (Reader.bytes (before ++ (piece ++ behind))) =
      ⟨Reader.bytes before, Reader.bytes piece⟩ := by
  simp only [Reader.Extent.span, Reader.bytes_append, Nat.add_sub_cancel]

end Bytes

/-- The attributes of one item of the blocks, between the tokens in front of them and those
behind. -/
inductive ItemMarks (blocks : List BlockSource) : List Token → List String → List Token → Prop where
  | ofBlock {earlier later : List BlockSource} {block : BlockSource}
      (whole : blocks = earlier ++ block :: later) :
      ItemMarks blocks (earlier.flatMap BlockSource.tokens) block.attributes
        (block.bodyTokens ++ later.flatMap BlockSource.tokens)
  | ofMethod {earlier later : List BlockSource} {block : BlockSource}
      {before behind : List MethodSource} {method : MethodSource}
      (whole : blocks = earlier ++ block :: later)
      (methods : block.methods = before ++ method :: behind) :
      ItemMarks blocks
        (earlier.flatMap BlockSource.tokens ++ (block.attributes.flatMap attributeTokens ++
          (block.headTokens ++ before.flatMap MethodSource.tokens)))
        method.attributes
        (method.bodyTokens ++ (behind.flatMap MethodSource.tokens ++
          .symbol "\x7d" :: later.flatMap BlockSource.tokens))

/-- The name of an attribute stands between the other attributes of its item. -/
def AttributeStands (prior : List Token) (front : List String) (name : String)
    (back : List String) (later : List Token) (before piece behind : List Char) : Prop :=
  Stands (prior ++ (front.flatMap attributeTokens ++ [.symbol "@["])) [] (.name .mark name)
    (.symbol "]" :: (back.flatMap attributeTokens ++ later)) before piece behind

/-- What stands at the place of a fault is what the fault names. -/
inductive PointsAt : (before piece behind : List Char) → Error → Prop where
  /-- The place of a malformed text is a point. -/
  | malformed {before behind : List Char} {expected : List Rule} {offset : Nat} :
      PointsAt before [] behind (.malformed expected offset)
  | unknownAttribute {blocks : List BlockSource} {prior later : List Token}
      {front back : List String} {name : String} {before behind : List Char} {span : Span}
      (isItem : ItemMarks blocks prior (front ++ name :: back) later)
      (stands : AttributeStands prior front name back later before name.toList behind) :
      PointsAt before name.toList behind (.unknownAttribute name span)
  | conflictingStrategy {blocks : List BlockSource} {prior later : List Token}
      {front back : List String} {name first : String} {before behind : List Char} {span : Span}
      (isItem : ItemMarks blocks prior (front ++ name :: back) later)
      (isFirst : first ∈ front) (firstStrategy : (strategyOfAttribute? first).isSome)
      (strategy : (strategyOfAttribute? name).isSome)
      (stands : AttributeStands prior front name back later before name.toList behind) :
      PointsAt before name.toList behind (.conflictingStrategy span)
  | skipOnType {earlier later : List BlockSource} {block : BlockSource}
      {front back : List String} {before behind : List Char} {span : Span}
      (attributes : block.attributes = front ++ "Skip" :: back)
      (stands : AttributeStands (earlier.flatMap BlockSource.tokens) front "Skip" back
        (block.bodyTokens ++ later.flatMap BlockSource.tokens) before "Skip".toList behind) :
      PointsAt before "Skip".toList behind (.skipOnType block.name span)
  | duplicateType {earlier later : List BlockSource} {block first : BlockSource}
      {before piece behind : List Char} {span : Span}
      (isFirst : first ∈ earlier) (same : first.name = block.name)
      (stands : Stands (earlier.flatMap BlockSource.tokens) block.openTokens (.symbol "\x7d")
        (later.flatMap BlockSource.tokens) before piece behind) :
      PointsAt before piece behind (.duplicateType block.name span)

/-- The span of the fault is that of a piece of the text at which it points. -/
def Error.PointsInto (fault : Error) (source : List Char) : Prop :=
  ∃ before piece behind, source = before ++ (piece ++ behind) ∧
    fault.span = ⟨Reader.bytes before, Reader.bytes piece⟩ ∧ PointsAt before piece behind fault

section Places

variable {source text rest : List Char} {prior opening later : List Token}
    {blocks : List BlockSource}

/-- The name of an attribute is found at its place. -/
theorem exists_attributeStands {front back : List AttributeNode} {node : AttributeNode}
    (reads : (Reader.many (Grammar.mark <* Reader.gap)).read text =
      some (front ++ node :: back, rest)) (settled : Avoids OpensGap text)
    (layoutPrior : Layout .readable prior (ended (skipGap false source)) (ended text))
    (layoutLater : Layout .readable later (ended rest) []) :
    ∃ before behind, source = before ++ (node.name.toList ++ behind) ∧
      node.extent.span (Reader.bytes source) =
        ⟨Reader.bytes before, Reader.bytes node.name.toList⟩ ∧
      AttributeStands prior (front.map AttributeNode.name) node.name
        (back.map AttributeNode.name) later before node.name.toList behind := by
  rcases (Reader.runs_of_read_many reads).exists_read with
    ⟨inner, next, runsFront, readsMark, runsBack⟩
  rcases Grammar.covers_mark.runs runsFront settled with
    ⟨settledInner, names, layoutFront, sameFront⟩
  rcases Grammar.exists_of_read_mark readsMark settledInner with
    ⟨behind, extent, layoutOpening, layoutName, settledNext⟩
  rcases Grammar.covers_mark.runs runsBack settledNext with
    ⟨_, others, layoutBack, sameBack⟩
  rw [List.map_id] at sameFront sameBack
  rw [← sameFront] at layoutFront
  rw [← sameBack] at layoutBack
  have inFront := layoutPrior.append (layoutFront.append layoutOpening)
  have fromName := layoutName.append (layoutBack.append layoutLater)
  rcases exists_stands_of_layouts [] (.name .mark node.name) inFront (.nil _) fromName with
    ⟨before, same, stands⟩
  refine ⟨before, behind, same, ?_, stands⟩
  rw [extent, same]
  exact span_extent before node.name.toList behind

theorem AttributeFault.pointsInto {nodes : List AttributeNode} {fault : Error}
    (faulty : AttributeFault (Reader.bytes source) nodes fault)
    (reads : (Reader.many (Grammar.mark <* Reader.gap)).read text = some (nodes, rest))
    (settled : Avoids OpensGap text)
    (isItem : ItemMarks blocks prior (nodes.map AttributeNode.name) later)
    (layoutPrior : Layout .readable prior (ended (skipGap false source)) (ended text))
    (layoutLater : Layout .readable later (ended rest) []) : fault.PointsInto source := by
  cases faulty with
  | unknown whole =>
      subst whole
      rcases exists_attributeStands reads settled layoutPrior layoutLater with
        ⟨before, behind, same, span, stands⟩
      rw [List.map_append, List.map_cons] at isItem
      exact ⟨before, _, behind, same, span, .unknownAttribute isItem stands⟩
  | conflict whole isEarlier earlierStrategy strategy =>
      subst whole
      rcases exists_attributeStands reads settled layoutPrior layoutLater with
        ⟨before, behind, same, span, stands⟩
      rw [List.map_append, List.map_cons] at isItem
      have isFirst := List.mem_map_of_mem (f := AttributeNode.name) isEarlier
      exact ⟨before, _, behind, same, span,
        .conflictingStrategy isItem isFirst earlierStrategy strategy stands⟩

end Places

section Blocks

variable {source text rest : List Char} {earlier later : List BlockSource}
    {block : TypeNode × Reader.Extent}
    (reads : (Reader.located Grammar.typeDecl <* Reader.gap).read text = some (block, rest))
    (settled : Avoids OpensGap text)
    (layoutPrior : Layout .readable (earlier.flatMap BlockSource.tokens)
      (ended (skipGap false source)) (ended text))
    (layoutLater : Layout .readable (later.flatMap BlockSource.tokens) (ended rest) [])

include reads settled layoutPrior layoutLater

theorem BlockFault.pointsInto {fault : Error}
    (faulty : BlockFault (Reader.bytes source) block.1 fault) : fault.PointsInto source := by
  rcases Grammar.exists_of_read_block reads settled with
    ⟨_, _, _, _, readsMarks, head, settledInside, readsMethods, closing, _⟩
  rcases Grammar.covers_marks readsMarks settled with ⟨_, _, marks, rfl⟩
  rcases Grammar.covers_method.many readsMethods settledInside with
    ⟨_, _, layoutMethods, methods, rfl, _⟩
  have layoutBody := (head.append (layoutMethods.append closing)).append layoutLater
  let shown : BlockSource := ⟨block.1.attributes.map AttributeNode.name, block.1.name, methods⟩
  cases faulty with
  | ofBlock inBlock =>
      have isItem : ItemMarks (earlier ++ shown :: later) _ shown.attributes _ := .ofBlock rfl
      exact inBlock.pointsInto readsMarks settled isItem layoutPrior layoutBody
  | @skipped front back _ whole skips =>
      have attributes : shown.attributes =
          front.map AttributeNode.name ++ "Skip" :: back.map AttributeNode.name := by
        simp [shown, whole, skips]
      rw [whole] at readsMarks
      rcases exists_attributeStands readsMarks settled layoutPrior layoutBody with
        ⟨before, behind, same, span, stands⟩
      rw [skips] at same span stands
      exact ⟨before, _, behind, same, span, .skipOnType attributes stands⟩
  | ofMethod whole inMethod =>
      rw [whole] at readsMethods
      rcases (Reader.runs_of_read_many readsMethods).exists_read with
        ⟨inner, next, runsFront, readsMethod, runsBack⟩
      rcases Grammar.covers_method.runs runsFront settledInside with
        ⟨settledInner, front, layoutFront, _⟩
      rcases Grammar.exists_of_read_method readsMethod settledInner with
        ⟨_, readsOwnMarks, method, layoutMethod, sameNames, _, _, settledNext⟩
      rcases Grammar.covers_method.runs runsBack settledNext with ⟨_, back, layoutBack, _⟩
      let own : BlockSource := { shown with methods := front ++ method :: back }
      have isItem : ItemMarks (earlier ++ own :: later) _ method.attributes _ := .ofMethod rfl rfl
      rw [sameNames] at isItem
      have inFront := layoutPrior.append (marks.append (head.append layoutFront))
      have behindMarks := layoutMethod.append (layoutBack.append (closing.append layoutLater))
      exact inMethod.pointsInto readsOwnMarks settledInner isItem inFront behindMarks

theorem pointsInto_of_duplicate {first : BlockSource} (isFirst : first ∈ earlier)
    (sameName : first.name = block.1.name) :
    (Error.duplicateType block.1.name (block.2.span (Reader.bytes source))).PointsInto source := by
  rcases Grammar.exists_of_read_block reads settled with
    ⟨_, _, behind, extent, readsMarks, head, settledInside, readsMethods, closing, _⟩
  rcases Grammar.covers_marks readsMarks settled with ⟨_, _, marks, rfl⟩
  rcases Grammar.covers_method.many readsMethods settledInside with
    ⟨_, _, layoutMethods, methods, rfl, _⟩
  let shown : BlockSource := ⟨block.1.attributes.map AttributeNode.name, block.1.name, methods⟩
  have opens : Layout .readable shown.openTokens (ended text) (ended ("\x7d".toList ++ behind)) :=
    marks.append (head.append layoutMethods)
  have closes := closing.append layoutLater
  rcases opens.exists_taken with ⟨opened, sameEnded, _⟩
  have sameText := eq_append_of_ended sameEnded (List.cons_ne_nil _ _)
  rw [← List.append_assoc] at sameText
  rw [sameText] at layoutPrior opens
  rcases exists_stands_of_layouts opened (.symbol "\x7d") layoutPrior opens closes with
    ⟨before, same, stands⟩
  refine ⟨before, _, behind, same, ?_, .duplicateType isFirst sameName stands⟩
  rw [Error.span, extent, sameText, same]
  exact span_extent before (opened ++ "\x7d".toList) behind

end Blocks

/-- A declared name is that of one of the blocks with the outlines that are declared. -/
theorem exists_block_of_declare {blocks : List BlockSource} {decls : List TypeDecl}
    {decl : TypeDecl} (declare : Declare (blocks.map BlockSource.outline) decls)
    (isDecl : decl ∈ decls) : ∃ block ∈ blocks, block.name = decl.name := by
  rcases (List.forall₂_map_left_iff.mp declare.blocks).exists_of_mem_right isDecl with
    ⟨block, isBlock, declares⟩
  exact ⟨block, isBlock, declares.name.symm⟩

theorem pointsInto_of_parse {source : String} {fault : Error}
    (fails : parse source = .error fault) :
    fault.PointsInto source.toList := by
  cases reads : Grammar.manifest.read source.toList with
  | none =>
      rcases parse_of_read_eq_none reads with ⟨expected, place, malformed⟩
      cases malformed.symm.trans fails
      refine ⟨source.toList.take place, [], source.toList.drop place, ?_, ?_, .malformed⟩
      · exact (List.take_append_drop place source.toList).symm
      · have total := Reader.bytes_append (source.toList.take place) (source.toList.drop place)
        rw [List.take_append_drop] at total
        rw [Error.span, total, Nat.add_sub_cancel]
        rfl
  | some found =>
      rcases found with ⟨nodes, rest⟩
      rw [parse_of_read reads, declareAll_eq_error_iff] at fails
      rcases fails with ⟨before, block, behind, decls, rfl, declared, blockFails⟩
      rcases (Grammar.runs_of_read_manifest reads).exists_read with
        ⟨inner, next, runsBefore, readsBlock, runsBehind⟩
      rcases Grammar.covers_block.runs runsBefore (settled_skipGap false _) with
        ⟨settledInner, earlier, layoutPrior, sameEarlier⟩
      have settledNext := (Grammar.covers_block readsBlock settledInner).1
      rcases Grammar.covers_block.runs runsBehind settledNext with ⟨_, later, layoutLater, _⟩
      rcases blockFails with blockFails | ⟨decl, declares, taken, rfl⟩
      · apply BlockFault.pointsInto readsBlock settledInner layoutPrior layoutLater
        exact TypeNode.blockFault_of_declared blockFails
      · have sameName : decl.name = block.1.name := (TypeNode.declared_eq_ok_iff.mp declares).name
        have outlines := congrArg (List.map Prod.fst) sameEarlier
        simp only [List.map_map, Function.comp_def] at outlines
        have declaredBefore := (declareAll_eq_ok_iff.mp declared).1
        rw [outlines] at declaredBefore
        rcases taken with ⟨other, isOther, takenName⟩
        rcases exists_block_of_declare declaredBefore isOther with ⟨first, isFirst, firstName⟩
        rw [sameName]
        apply pointsInto_of_duplicate readsBlock settledInner layoutPrior layoutLater isFirst
        rw [firstName, takenName, sameName]

/-- The span of a fault lies in the text, between whole characters, and what the fault
names stands there. -/
theorem fault_points_at_what_it_names {source : String} {fault : Error}
    (fails : parse source = .error fault) :
    ∃ before piece behind : String, source = before ++ piece ++ behind ∧
      fault.span = ⟨before.utf8ByteSize, piece.utf8ByteSize⟩ ∧
      PointsAt before.toList piece.toList behind.toList fault := by
  rcases pointsInto_of_parse fails with ⟨before, piece, behind, same, span, points⟩
  refine ⟨.ofList before, .ofList piece, .ofList behind, ?_, ?_, ?_⟩
  · rw [← String.toList_inj, same]
    simp
  · rw [span, ← Reader.bytes_toList, ← Reader.bytes_toList, String.toList_ofList,
      String.toList_ofList]
  · simpa only [String.toList_ofList] using points

/-- Characters of several bytes in front of an attribute move its span by their bytes. -/
theorem fault_points_at_what_it_names_comment :
    let source := "# é🙂\r\n@[Sometimes] type Box \x7b \x7d"
    ∃ before piece behind : String, source = before ++ piece ++ behind ∧
      before.utf8ByteSize = 12 ∧ piece = "Sometimes" ∧
      PointsAt before.toList piece.toList behind.toList
        (.unknownAttribute "Sometimes" ⟨12, 9⟩) := by
  intro source
  have fails : parse source = .error (.unknownAttribute "Sometimes" ⟨12, 9⟩) := by
    decide +kernel
  rcases fault_points_at_what_it_names fails with ⟨before, piece, behind, same, span, points⟩
  rcases Span.mk.inj span with ⟨start, _⟩
  refine ⟨before, piece, behind, same, start.symm, ?_, points⟩
  generalize sameBefore : before.toList = left at points
  generalize samePiece : piece.toList = middle at points
  generalize sameBehind : behind.toList = right at points
  cases points with
  | unknownAttribute => exact String.toList_inj.mp samePiece

end MultiDispatch.Manifest
