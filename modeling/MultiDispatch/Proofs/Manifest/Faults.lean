import MultiDispatch.Proofs.Manifest.Outline

/-!
# Faults of manifests

A manifest that can be read is refused for one block, the first that cannot be
declared or whose name is taken.  The reported fault tells which attribute it is in,
or that the whole block stands a second time.
-/

namespace MultiDispatch.Manifest

variable {total : Nat} {fault : Error}

section Attributes

variable {marks : Marks} {node : AttributeNode} {nodes : List AttributeNode}

/-- Adding an attribute fails where it is unknown, and where it is a second strategy. -/
theorem eq_of_add_eq_error (fails : Marks.add total marks node = .error fault) :
    fault = .unknownAttribute node.name (node.extent.span total) ∨
      (strategyOfAttribute? node.name).isSome ∧ marks.strategy.isSome ∧
        fault = .conflictingStrategy (node.extent.span total) := by
  rcases node with ⟨name, extent⟩
  rcases marks with ⟨strategy, skip⟩
  simp only [Marks.add] at fails
  split at fails
  · cases fails
  · cases strategy with
    | none => cases fails
    | some =>
        cases fails
        exact .inr ⟨rfl, rfl, rfl⟩
  · cases strategy with
    | none => cases fails
    | some =>
        cases fails
        exact .inr ⟨rfl, rfl, rfl⟩
  · cases fails
    exact .inl rfl

/-- What is wrong with the attributes of one item. -/
inductive AttributeFault (total : Nat) (nodes : List AttributeNode) : Error → Prop where
  | unknown {before behind : List AttributeNode} {node : AttributeNode}
      (whole : nodes = before ++ node :: behind) :
      AttributeFault total nodes (.unknownAttribute node.name (node.extent.span total))
  | conflict {before behind : List AttributeNode} {node earlier : AttributeNode}
      (whole : nodes = before ++ node :: behind) (isEarlier : earlier ∈ before)
      (earlierStrategy : (strategyOfAttribute? earlier.name).isSome)
      (strategy : (strategyOfAttribute? node.name).isSome) :
      AttributeFault total nodes (.conflictingStrategy (node.extent.span total))

theorem AttributeFault.append (inFront : AttributeFault total nodes fault)
    (more : List AttributeNode) : AttributeFault total (nodes ++ more) fault := by
  cases inFront with
  | @unknown before behind node whole =>
      have wholeAppended : nodes ++ more = before ++ node :: (behind ++ more) := by simp [whole]
      exact .unknown wholeAppended
  | @conflict before behind node earlier whole isEarlier earlierStrategy strategy =>
      have wholeAppended : nodes ++ more = before ++ node :: (behind ++ more) := by simp [whole]
      exact .conflict wholeAppended isEarlier earlierStrategy strategy

/-- A strategy is set by an attribute that asks for it. -/
theorem exists_strategy_of_collect (collected : Marks.collect total nodes = .ok marks)
    (isSet : marks.strategy.isSome) :
    ∃ earlier ∈ nodes, (strategyOfAttribute? earlier.name).isSome := by
  rcases Option.isSome_iff_exists.mp isSet with ⟨strategy, same⟩
  have say := exists_collect_iff.mp ⟨marks, collected, rfl, rfl⟩
  have inside : strategy ∈ (nodes.map AttributeNode.name).filterMap strategyOfAttribute? := by
    rw [say.strategy, same]
    exact List.mem_singleton_self strategy
  rcases List.mem_filterMap.mp inside with ⟨name, isName, asks⟩
  rcases List.mem_map.mp isName with ⟨earlier, isEarlier, rfl⟩
  exact ⟨earlier, isEarlier, Option.isSome_iff_exists.mpr ⟨strategy, asks⟩⟩

theorem attributeFault_of_collect (fails : Marks.collect total nodes = .error fault) :
    AttributeFault total nodes fault := by
  induction nodes using List.reverseRecOn with
  | nil => cases fails
  | append_singleton nodes node inductionHypothesis =>
      rw [collect_append_singleton, Except.bind_eq_error_iff] at fails
      rcases fails with earlierFails | ⟨marks, collected, adding⟩
      · exact (inductionHypothesis earlierFails).append [node]
      · rcases eq_of_add_eq_error adding with rfl | ⟨strategy, isSet, rfl⟩
        · exact .unknown rfl
        · rcases exists_strategy_of_collect collected isSet with
            ⟨earlier, isEarlier, earlierStrategy⟩
          exact .conflict rfl isEarlier earlierStrategy strategy

/-- Where skipping is asked for is one of the attributes. -/
theorem exists_skip_of_collect {span : Span} (collected : Marks.collect total nodes = .ok marks)
    (skips : marks.skip = some span) :
    ∃ before node behind, nodes = before ++ node :: behind ∧ node.name = "Skip" ∧
      span = node.extent.span total := by
  induction nodes using List.reverseRecOn generalizing marks with
  | nil =>
      cases collected
      cases skips
  | append_singleton nodes node inductionHypothesis =>
      rw [collect_append_singleton, Except.bind_eq_ok_iff] at collected
      rcases collected with ⟨before, collectedBefore, adding⟩
      rcases add_eq_ok_iff.mp adding with ⟨isSkip, rfl⟩ | ⟨_, _, _, rfl⟩
      · cases skips
        exact ⟨nodes, node, [], rfl, isSkip, rfl⟩
      · rcases inductionHypothesis collectedBefore skips with
          ⟨front, found, back, rfl, isSkip, same⟩
        exact ⟨front, found, back ++ [node], by simp, isSkip, same⟩

end Attributes

/-- What is wrong with a block by itself. -/
inductive BlockFault (total : Nat) (block : TypeNode) : Error → Prop where
  | ofBlock {fault : Error} (inBlock : AttributeFault total block.attributes fault) :
      BlockFault total block fault
  | ofMethod {before behind : List MethodNode} {method : MethodNode} {fault : Error}
      (whole : block.methods = before ++ method :: behind)
      (inMethod : AttributeFault total method.attributes fault) :
      BlockFault total block fault
  | skipped {before behind : List AttributeNode} {node : AttributeNode}
      (whole : block.attributes = before ++ node :: behind) (skips : node.name = "Skip") :
      BlockFault total block (.skipOnType block.name (node.extent.span total))

theorem TypeNode.blockFault_of_declared {block : TypeNode}
    (fails : block.declared total = .error fault) : BlockFault total block fault := by
  rw [TypeNode.declared, Except.bind_eq_error_iff] at fails
  rcases fails with attributesFail | ⟨marks, collected, fails⟩
  · exact .ofBlock (attributeFault_of_collect attributesFail)
  · rcases Except.bind_eq_error_iff.mp fails with methodsFail | ⟨methods, _, fails⟩
    · rcases List.mapM_eq_error_iff.mp methodsFail with
        ⟨before, method, behind, whole, _, methodFails⟩
      rw [MethodNode.declared, Except.bind_eq_error_iff] at methodFails
      rcases methodFails with attributesFail | ⟨_, _, impossible⟩
      · exact .ofMethod whole (attributeFault_of_collect attributesFail)
      · cases impossible
    · cases skips : marks.skip with
      | none =>
          rw [skips] at fails
          cases fails
      | some span =>
          rw [skips] at fails
          cases fails
          rcases exists_skip_of_collect collected skips with ⟨_, node, _, whole, isSkip, rfl⟩
          exact .skipped whole isSkip

section Blocks

variable {earlier decls : List TypeDecl} {blocks : List (TypeNode × Reader.Extent)}

theorem declareAll_cons_eq_error_iff {block : TypeNode × Reader.Extent} :
    declareAll total earlier (block :: blocks) = .error fault ↔
      block.1.declared total = .error fault ∨
        ∃ decl, block.1.declared total = .ok decl ∧
          ((∃ other ∈ earlier, other.name = decl.name) ∧
              fault = .duplicateType decl.name (block.2.span total) ∨
            (∀ other ∈ earlier, other.name ≠ decl.name) ∧
              declareAll total (earlier ++ [decl]) blocks = .error fault) := by
  rcases block with ⟨node, extent⟩
  rw [declareAll, Except.bind_eq_error_iff]
  apply or_congr_right
  apply exists_congr
  intro decl
  apply and_congr_right
  intro _
  by_cases taken : earlier.any fun other => other.name = decl.name
  · have repeated : ∃ other ∈ earlier, other.name = decl.name := by simpa using taken
    rw [if_pos taken]
    constructor
    · intro fails
      cases fails
      exact .inl ⟨repeated, rfl⟩
    · intro fails
      rcases fails with ⟨_, rfl⟩ | ⟨fresh, _⟩
      · rfl
      · rcases repeated with ⟨other, isOther, same⟩
        exact absurd same (fresh other isOther)
  · have fresh : ∀ other ∈ earlier, other.name ≠ decl.name := by simpa using taken
    rw [if_neg taken]
    constructor
    · intro fails
      rcases Except.bind_eq_error_iff.mp fails with fails | ⟨_, _, impossible⟩
      · exact .inr ⟨fresh, fails⟩
      · cases impossible
    · intro fails
      rcases fails with ⟨⟨other, isOther, same⟩, _⟩ | ⟨_, fails⟩
      · exact absurd same (fresh other isOther)
      · exact Except.bind_eq_error_iff.mpr (.inl fails)

/-- The fault is that of the first block that cannot be declared behind those before. -/
theorem declareAll_eq_error_iff :
    declareAll total earlier blocks = .error fault ↔
      ∃ before block behind decls, blocks = before ++ block :: behind ∧
        declareAll total earlier before = .ok decls ∧
        (block.1.declared total = .error fault ∨
          ∃ decl, block.1.declared total = .ok decl ∧
            (∃ other ∈ earlier ++ decls, other.name = decl.name) ∧
            fault = .duplicateType decl.name (block.2.span total)) := by
  induction blocks generalizing earlier with
  | nil => simp [declareAll, pure, Except.pure]
  | cons first rest inductionHypothesis =>
      rw [declareAll_cons_eq_error_iff]
      constructor
      · intro fails
        rcases fails with here | ⟨decl, declares, ⟨taken, rfl⟩ | ⟨fresh, later⟩⟩
        · exact ⟨[], first, rest, [], rfl, rfl, .inl here⟩
        · exact ⟨[], first, rest, [], rfl, rfl, .inr ⟨decl, declares, by simpa using taken, rfl⟩⟩
        · rcases inductionHypothesis.mp later with
            ⟨before, block, behind, decls, rfl, declared, blockFails⟩
          refine ⟨first :: before, block, behind, decl :: decls, rfl, ?_, ?_⟩
          · exact declareAll_cons_eq_ok_iff.mpr
              ⟨decl, decls, TypeNode.declared_eq_ok_iff.mp declares, fresh, declared, rfl⟩
          · rwa [List.append_assoc, List.singleton_append] at blockFails
      · intro fails
        rcases fails with ⟨before, block, behind, decls, whole, declared, blockFails⟩
        cases before with
        | nil =>
            cases whole
            cases declared
            rcases blockFails with fails | ⟨decl, declares, taken, rfl⟩
            · exact .inl fails
            · exact .inr ⟨decl, declares, .inl ⟨by simpa using taken, rfl⟩⟩
        | cons _ before =>
            cases whole
            rcases declareAll_cons_eq_ok_iff.mp declared with
              ⟨decl, others, declares, fresh, declaredOthers, rfl⟩
            refine .inr ⟨decl, TypeNode.declared_eq_ok_iff.mpr declares, .inr ⟨fresh, ?_⟩⟩
            apply inductionHypothesis.mpr
            refine ⟨before, block, behind, others, rfl, declaredOthers, ?_⟩
            rwa [List.append_assoc, List.singleton_append]

end Blocks

end MultiDispatch.Manifest
