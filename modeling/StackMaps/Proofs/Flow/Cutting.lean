import StackMaps.Proofs.Flow.DepthAgreement

/-!
# Stacks that are never cut

The deeper the stack at the entry of a block, the deeper the one at its end. So what is
found when the inference has ended is at least as deep as all that was found before, and
no stack was ever cut if none of those at the end is too deep.
-/

namespace StackMaps

/-- A deeper stack stays the deeper one. -/
theorem SlotState.depth_interpret_mono
    {state other : SlotState}
    (le : state.stack.depth ≤ other.stack.depth)
    (context : MethodContext)
    (position : Nat)
    (instruction : Instruction) :
    (state.interpret context position instruction).stack.depth ≤
      (other.interpret context position instruction).stack.depth := by
  by_cases regular : instruction.IsRegular
  · rw [depth_interpret _ _ _ _ regular, depth_interpret _ _ _ _ regular]
    omega
  · rw [interpret_of_not_isRegular _ _ _ _ regular, interpret_of_not_isRegular _ _ _ _ regular]
    exact le

namespace Block

variable {block : Block} {method : MethodContext} {state other : SlotState}

theorem depth_stateAfter_mono
    (le : state.stack.depth ≤ other.stack.depth)
    (entry : Instruction × Nat) :
    (block.stateAfter method state entry).stack.depth ≤
      (block.stateAfter method other entry).stack.depth := by
  unfold stateAfter
  cases block.entersHandler entry.1 with
  | true => exact SlotState.depth_interpret_mono (Nat.le_refl 1) _ _ _
  | false => exact SlotState.depth_interpret_mono le _ _ _

theorem depth_stateAt_mono
    {first offset : Nat}
    (later : first ≤ offset)
    (le : (block.stateAt method state first).stack.depth ≤
      (block.stateAt method other first).stack.depth)
    (inside : offset ≤ block.instructions.length) :
    (block.stateAt method state offset).stack.depth ≤
      (block.stateAt method other offset).stack.depth := by
  induction offset, later using Nat.le_induction with
  | base => exact le
  | succ offset _ hypothesis =>
      have found := List.getElem?_eq_getElem
        (show offset < block.instructions.length from inside)
      rw [stateAt_succ found, stateAt_succ found]
      exact depth_stateAfter_mono (hypothesis (Nat.le_of_succ_le inside)) _

/-- The deeper the entry, the deeper the end. The depth at the entry of a handler does not
matter behind its mark. -/
theorem depth_stateAt_length_mono
    {body : Body}
    {index : Nat}
    (found : (FlowGraph.ofBody body).blocks[index]? = some block)
    (le : block.handlers = [] → state.stack.depth ≤ other.stack.depth) :
    (block.stateAt method state block.instructions.length).stack.depth ≤
      (block.stateAt method other block.instructions.length).stack.depth := by
  by_cases plain : block.handlers = []
  · exact depth_stateAt_mono (Nat.zero_le _) (le plain) (Nat.le_refl _)
  · obtain ⟨instruction, first, enters⟩ := entersHandler_first found plain
    have filled : 0 < block.instructions.length := (List.getElem?_eq_some_iff.mp first).1
    refine depth_stateAt_mono (show 1 ≤ _ from filled) ?_ (Nat.le_refl _)
    rw [stateAt_succ first, stateAt_succ first]
    simp only [stateAfter, enters, if_true]
    exact SlotState.depth_interpret_mono (Nat.le_refl 1) _ _ _

end Block

/-- The deeper the end of a block, the more is passed on. -/
theorem Edge.depth_carried_mono
    {context : TypingContext}
    {source other : Notes}
    (le : source.outputState.stack.depth ≤ other.outputState.stack.depth)
    (edge : Edge) :
    (edge.carried context source).stack.depth ≤ (edge.carried context other).stack.depth := by
  cases edge with
  | normal =>
      simp only [carried, Stack.drop]
      omega
  | exception types => exact Nat.le_refl 1

@[simp] theorem Block.outputState_merge
    {block : Block}
    {hierarchy : Hierarchy}
    {widen fromException : Bool}
    {incoming : SlotState}
    {notes : Notes} :
    (block.merge hierarchy widen fromException incoming notes).outputState =
      notes.outputState := by
  by_cases plain : block.handlers = []
  · rw [merge_of_handlers_eq_nil plain]
  · rw [merge_of_handlers_ne_nil plain]

/-- A second visit of the same entry has the same outcome. -/
theorem Block.outputState_interpret_interpret
    (block : Block)
    (context : TypingContext)
    (notes : Notes) :
    (block.interpret context (block.interpret context notes)).outputState =
      (block.interpret context notes).outputState := by
  rw [outputState_interpret, outputState_interpret, inputState_interpret]

namespace TypeAnalysis

/-- The state at the end of a block is the outcome of its present entry. -/
def outputSettlement (context : TypingContext) (graph : FlowGraph) :
    (typeAnalysis context).Settlement graph (fun _ _ => True) where
  Absorbs _ _ _ _ _ := True
  Done block notes := notes.outputState = (block.interpret context notes).outputState
  absorbs_receive _ _ _ _ _ _ _ _ _ _ _ _ := trivial
  absorbs_receive_other _ _ _ _ _ _ _ _ _ _ _ _ _ _ _ := trivial
  absorbs_transfer _ _ _ _ _ _ := trivial
  done_receive block edge source notes unchanged done := by
    have same : ((typeAnalysis context).receive block edge source notes).inputState =
        notes.inputState := unchanged
    rw [Block.outputState_interpret] at done ⊢
    rw [same, ← done]
    exact Block.outputState_merge

variable {context : TypingContext} {graph : FlowGraph} {locals : List Slot}

/-- When nobody waits any more, the state at the end of a reached block is the outcome of
its entry. -/
theorem outputState_settled
    (closed : graph.Closed)
    (filled : 0 < graph.blocks.size)
    (drained : (graph.inferRun context locals).worklist.toList = [])
    {index : Nat}
    {block : Block}
    {state : SlotState}
    (found : graph.blocks[index]? = some block)
    (entered : ((graph.inferRun context locals).notesOn index).inputState = some state) :
    ((graph.inferRun context locals).notesOn index).outputState =
      (block.interpret context ((graph.inferRun context locals).notesOn index)).outputState := by
  have settled : (outputSettlement context graph).Settled (graph.inferRun context locals) :=
    (Analysis.Settlement.Settled.opening filled rfl).reaches closed (lawful_true graph)
      (sound_opening filled locals)
      (fun _ _ _ block _ _ _ => (block.outputState_interpret_interpret _ _).symm)
      (Progress.reaches_run _ _)
  exact (settled index block state found (by simp [drained]) entered).1

/-- A reached block is also reached in the given notes, and its entry is at least as deep
there. -/
def Below (graph : FlowGraph) (notesOn : Nat → Notes) (index : Nat) (notes : Notes) : Prop :=
  ∀ block state,
    graph.blocks[index]? = some block →
    notes.inputState = some state →
    ∃ input, (notesOn index).inputState = some input ∧
      (block.handlers = [] → state.stack.depth ≤ input.stack.depth)

/-- A block is at most as deep at its end as it is there. -/
theorem Below.depth_interpret_le
    {body : Body}
    {notesOn : Nat → Notes}
    {index : Nat}
    {block : Block}
    {notes : Notes}
    (below : Below (FlowGraph.ofBody body) notesOn index notes)
    (found : (FlowGraph.ofBody body).blocks[index]? = some block)
    (entered : notes.inputState.isSome) :
    (block.interpret context notes).outputState.stack.depth ≤
      (block.interpret context (notesOn index)).outputState.stack.depth := by
  obtain ⟨state, state_eq⟩ := Option.isSome_iff_exists.mp entered
  obtain ⟨input, input_eq, le⟩ := below block state found state_eq
  rw [Block.outputState_interpret, Block.outputState_interpret, state_eq, input_eq]
  exact Block.depth_stateAt_length_mono found le

end TypeAnalysis

namespace FlowGraph

/-- No stack is cut where control passes on from a block. -/
def NeverCuts (graph : FlowGraph) (context : TypingContext) (locals : List Slot) : Prop :=
  ∀ {index : Nat} {block : Block} {notes : Notes} {pending : List (Nat × Edge)}
    {progress : Progress},
    (typeAnalysis context).Visiting graph (graph.opening (Notes.enterState locals)) index block
      notes pending progress →
    (block.interpret context notes).outputState.stack.depth ≤ context.stackLimit

section Final

variable {body : Body} {context : TypingContext} {locals : List Slot}
variable (filled : body.instructions ≠ [])
variable (drained : ((ofBody body).inferRun context locals).worklist.toList = [])

include filled drained

/-- All that is found is below what has been found in the end. -/
theorem lawful_below :
    (typeAnalysis context).Lawful (ofBody body)
      (TypeAnalysis.Below (ofBody body) ((ofBody body).inferRun context locals).notesOn) := by
  refine TypeAnalysis.lawful (fun _ _ _ _ _ below => below) ?_
  intro index block edge target targetBlock notes known crosses entered below targetBelow
    same after same_eq after_eq
  obtain rfl := Option.some.inj (crosses.target_eq.symm.trans same_eq)
  obtain ⟨state, state_eq⟩ := Option.isSome_iff_exists.mp entered
  obtain ⟨final, final_eq, _⟩ := below block state crosses.source_eq state_eq
  obtain ⟨input, input_eq, deep⟩ := (TypeAnalysis.depth_settled (closed_ofBody body)
    (size_blocks_pos filled) drained crosses.source_eq final_eq).2 edge target _ crosses
  refine ⟨input, input_eq, fun plain => ?_⟩
  have passed : (edge.carried context (block.interpret context notes)).stack.depth ≤
      input.stack.depth := by
    refine Nat.le_trans ?_ (deep.le plain)
    rw [← Block.carried_interpret final_eq edge]
    exact Edge.depth_carried_mono (below.depth_interpret_le crosses.source_eq entered) edge
  simp only [typeAnalysis, Block.merge_of_handlers_eq_nil plain, Option.some.injEq] at after_eq
  subst after_eq
  refine (Block.depth_mergedStack_le_iff _ _).mpr ⟨passed, fun before before_eq => ?_⟩
  obtain ⟨_, again, le⟩ := targetBelow _ before same_eq before_eq
  obtain rfl := Option.some.inj (again.symm.trans input_eq)
  exact le plain

theorem sound_below :
    (typeAnalysis context).Sound (ofBody body)
      (TypeAnalysis.Below (ofBody body) ((ofBody body).inferRun context locals).notesOn)
      ((ofBody body).opening (Notes.enterState locals)) := by
  refine Analysis.Sound.opening (size_blocks_pos filled) rfl ?_ fun _ _ _ _ _ absent => ?_
  · rintro block _ _ ⟨⟩
    obtain ⟨input, input_eq⟩ := Option.isSome_iff_exists.mp
      ((isSome_inputState_iff_reachable filled drained).mpr .refl)
    exact ⟨input, input_eq, fun _ => Nat.zero_le _⟩
  · cases absent

/-- No stack was ever cut if none of those at the ends of the blocks is too deep when the
inference has ended. -/
theorem neverCuts_of_drained
    (shallow : ∀ notes ∈ ((ofBody body).inferRun context locals).notes.toList,
      notes.outputState.stack.depth ≤ context.stackLimit) :
    (ofBody body).NeverCuts context locals := by
  intro index block notes pending progress visiting
  have closed := closed_ofBody body
  have lawful := lawful_below filled drained
  obtain ⟨_, below, entered⟩ :=
    (sound_below filled drained).visiting closed lawful visiting
  obtain ⟨state, state_eq⟩ := Option.isSome_iff_exists.mp entered
  obtain ⟨input, input_eq, _⟩ := below block state visiting.block_eq state_eq
  calc (block.interpret context notes).outputState.stack.depth
      ≤ (block.interpret context
          (((ofBody body).inferRun context locals).notesOn index)).outputState.stack.depth :=
        below.depth_interpret_le visiting.block_eq entered
    _ = (((ofBody body).inferRun context locals).notesOn index).outputState.stack.depth := by
        rw [TypeAnalysis.outputState_settled closed (size_blocks_pos filled) drained
          visiting.block_eq input_eq]
    _ ≤ context.stackLimit := shallow _ (notesOn_inferRun_mem visiting.block_eq)

end Final

end FlowGraph

end StackMaps
