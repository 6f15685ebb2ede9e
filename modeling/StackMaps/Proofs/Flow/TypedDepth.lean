import StackMaps.Proofs.Flow.Outcome

/-!
# Depths of interpreted stacks

The stacks of an interpreted block are as deep as the depths that are replayed from
the same depth at its entry, up to the limit of the replay. When the inference has
ended, over whatever hierarchy, the entries of successors are at least as deep as
what is passed on to them.
-/

namespace StackMaps

namespace Block

variable {block : Block} {limit depth : Nat} {method : MethodContext} {state : SlotState}

/-- No depth behind an instruction is cut when the block is entered with the given
one. -/
def Uncut (block : Block) (limit depth : Nat) : Prop :=
  ∀ offset instruction, block.instructions[offset]? = some instruction →
    block.entersHandler instruction = false →
    block.replay limit depth offset - instruction.stackEffect.pops +
      instruction.stackEffect.pushes ≤ limit

/-- The depth behind an instruction of a block is not above the limit. -/
theorem replay_le_of_pos
    (positive : 1 ≤ limit)
    {offset : Nat}
    (later : 0 < offset)
    (le : offset ≤ block.instructions.length) :
    block.replay limit depth offset ≤ limit := by
  obtain ⟨before, rfl⟩ := Nat.exists_eq_succ_of_ne_zero (Nat.ne_of_gt later)
  have found := List.getElem?_eq_getElem (show before < block.instructions.length from le)
  rw [replay_succ found]
  exact depthAfter_le positive _ _

section Depths

variable (regular : ∀ instruction ∈ block.instructions, instruction.IsRegular)

include regular

/-- One step of an interpretation makes the stack as deep as one of a replay without
limit. -/
theorem depth_stateAt_succ
    {offset : Nat}
    {instruction : Instruction}
    (found : block.instructions[offset]? = some instruction) :
    (block.stateAt method state (offset + 1)).stack.depth =
      if block.entersHandler instruction then 1
      else
        (block.stateAt method state offset).stack.depth - instruction.stackEffect.pops +
          instruction.stackEffect.pushes := by
  rw [stateAt_succ found]
  exact depth_stateAfter (regular instruction (List.mem_of_getElem? found)) _

/-- A replay that is not deeper at one point is not deeper from there on. -/
theorem replay_le_depth_stateAt
    {first offset : Nat}
    (le : first ≤ offset)
    (inside : offset ≤ block.instructions.length)
    (start : block.replay limit depth first ≤ (block.stateAt method state first).stack.depth) :
    block.replay limit depth offset ≤ (block.stateAt method state offset).stack.depth := by
  induction offset, le using Nat.le_induction with
  | base => exact start
  | succ offset _ hypothesis =>
      have found := List.getElem?_eq_getElem
        (show offset < block.instructions.length from inside)
      have before := hypothesis (Nat.le_of_succ_le inside)
      rw [replay_succ found, depth_stateAt_succ regular found, depthAfter]
      split
      · exact Nat.le_refl 1
      · dsimp only
        omega

/-- A stack that is not deeper at one point than an uncut replay is not deeper from
there on. -/
theorem depth_stateAt_le_replay
    (uncut : block.Uncut limit depth)
    {first offset : Nat}
    (le : first ≤ offset)
    (inside : offset ≤ block.instructions.length)
    (start : (block.stateAt method state first).stack.depth ≤ block.replay limit depth first) :
    (block.stateAt method state offset).stack.depth ≤ block.replay limit depth offset := by
  induction offset, le using Nat.le_induction with
  | base => exact start
  | succ offset _ hypothesis =>
      have found := List.getElem?_eq_getElem
        (show offset < block.instructions.length from inside)
      have before := hypothesis (Nat.le_of_succ_le inside)
      rw [replay_succ found, depth_stateAt_succ regular found, depthAfter]
      cases enters : block.entersHandler block.instructions[offset] with
      | true => exact Nat.le_refl 1
      | false =>
          have whole := uncut offset _ found enters
          simp only [Bool.false_eq_true, if_false]
          omega

end Depths

/-! ## Entries of handlers -/

section Handlers

variable {body : Body} {index : Nat}
variable (found : (FlowGraph.ofBody body).blocks[index]? = some block)

include found

/-- Behind the mark of its handler a block continues with the exception alone. -/
theorem entersHandler_first (handles : block.handlers ≠ []) :
    ∃ instruction, block.instructions[0]? = some instruction ∧
      block.entersHandler instruction = true := by
  obtain ⟨label, present, first⟩ := FlowGraph.first_of_handlers_ne_nil found handles
  exact ⟨_, first, by simpa [entersHandler, Instruction.marks?] using present⟩

theorem replay_one (handles : block.handlers ≠ []) : block.replay limit depth 1 = 1 := by
  obtain ⟨instruction, first, enters⟩ := entersHandler_first found handles
  rw [replay_succ first, depthAfter, if_pos enters]

variable (regular : ∀ instruction ∈ body.instructions, instruction.IsRegular)

include regular

theorem depth_stateAt_one (handles : block.handlers ≠ []) :
    (block.stateAt method state 1).stack.depth = 1 := by
  obtain ⟨instruction, first, enters⟩ := entersHandler_first found handles
  rw [depth_stateAt_succ
    (fun _ present => regular _ (FlowGraph.mem_instructions found present)) first, if_pos enters]

/-- A replay is not deeper than an interpretation with at least the same depth at the
entry. The depth at the entry of a handler does not matter behind its mark. -/
theorem replay_le_depth_stateAt_of_entry
    (le : block.handlers = [] → depth ≤ state.stack.depth)
    {offset : Nat}
    (inside : offset ≤ block.instructions.length)
    (later : block.handlers ≠ [] → 0 < offset) :
    block.replay limit depth offset ≤ (block.stateAt method state offset).stack.depth := by
  have regularHere : ∀ instruction ∈ block.instructions, instruction.IsRegular :=
    fun _ present => regular _ (FlowGraph.mem_instructions found present)
  by_cases plain : block.handlers = []
  · exact replay_le_depth_stateAt regularHere (Nat.zero_le offset) inside (le plain)
  · refine replay_le_depth_stateAt regularHere (later plain) inside ?_
    rw [replay_one found plain, depth_stateAt_one found regular plain]

/-- An interpretation is not deeper than an uncut replay with at least the same depth
at the entry. -/
theorem depth_stateAt_le_replay_of_entry
    (uncut : block.Uncut limit depth)
    (le : block.handlers = [] → state.stack.depth ≤ depth)
    {offset : Nat}
    (inside : offset ≤ block.instructions.length)
    (later : block.handlers ≠ [] → 0 < offset) :
    (block.stateAt method state offset).stack.depth ≤ block.replay limit depth offset := by
  have regularHere : ∀ instruction ∈ block.instructions, instruction.IsRegular :=
    fun _ present => regular _ (FlowGraph.mem_instructions found present)
  by_cases plain : block.handlers = []
  · exact depth_stateAt_le_replay regularHere uncut (Nat.zero_le offset) inside (le plain)
  · refine depth_stateAt_le_replay regularHere uncut (later plain) inside ?_
    rw [replay_one found plain, depth_stateAt_one found regular plain]

end Handlers

/-! ## Depths of merged entries -/

variable {notes : Notes} {hierarchy : Hierarchy} {widen fromException : Bool}
variable {incoming : SlotState}

@[simp] theorem maxDepth_merge :
    (block.merge hierarchy widen fromException incoming notes).maxDepth = notes.maxDepth := by
  by_cases plain : block.handlers = []
  · rw [merge_of_handlers_eq_nil plain]
  · rw [merge_of_handlers_ne_nil plain]

@[simp] theorem inputDepth_merge :
    (block.merge hierarchy widen fromException incoming notes).inputDepth = notes.inputDepth := by
  by_cases plain : block.handlers = []
  · rw [merge_of_handlers_eq_nil plain]
  · rw [merge_of_handlers_ne_nil plain]

/-- The stack at the entry of a block does not get less deep by a merge, and a handler
has the exception alone on it. -/
theorem exists_inputState_merge :
    ∃ input, (block.merge hierarchy widen fromException incoming notes).inputState = some input ∧
      (block.handlers = [] → incoming.stack.depth ≤ input.stack.depth ∧
        ∀ known, notes.inputState = some known → known.stack.depth ≤ input.stack.depth) ∧
      (block.handlers ≠ [] → input.stack.depth = 1) := by
  by_cases plain : block.handlers = []
  · rw [merge_of_handlers_eq_nil plain]
    exact ⟨_, rfl, fun _ => (depth_mergedStack_le_iff hierarchy widen).mp (Nat.le_refl _),
      fun handles => absurd plain handles⟩
  · rw [merge_of_handlers_ne_nil plain]
    exact ⟨_, rfl, fun none_ => absurd none_ plain, fun _ => rfl⟩

end Block

/-- The depth that is passed on along a normal edge is the one at the end of the block,
up to the limit. -/
theorem Edge.depth_carried_normal
    {context : TypingContext}
    {block : Block}
    {notes : Notes}
    {state : SlotState}
    (entered : notes.inputState = some state) :
    (Edge.normal.carried context (block.interpret context notes)).stack.depth =
      min (block.stateAt context.method state block.instructions.length).stack.depth
        context.stackLimit := by
  simp only [Edge.carried, Block.outputState_interpret, entered, Option.getD_some, Stack.drop]
  omega

namespace TypeAnalysis

variable {context : TypingContext} {graph : FlowGraph}

/-- The stack at an entry is at least as deep as what is passed on from a state. -/
structure IsDeepFor
    (context : TypingContext)
    (block : Block)
    (state : SlotState)
    (edge : Edge)
    (targetBlock : Block)
    (input : SlotState) : Prop where
  le : targetBlock.handlers = [] →
    (edge.carried context (block.interpret context (.ofState state))).stack.depth ≤
      input.stack.depth
  eq_one : targetBlock.handlers ≠ [] → input.stack.depth = 1

/-- A successor has taken account of the depth of a state if its entry is deep enough. -/
def depthSettlement (context : TypingContext) (graph : FlowGraph) :
    (typeAnalysis context).Settlement graph (fun _ _ => True) where
  Absorbs block state edge targetBlock known :=
    ∃ input, known.inputState = some input ∧ IsDeepFor context block state edge targetBlock input
  Done block notes :=
    ∀ offset ≤ block.instructions.length,
      (block.stateAt context.method (notes.inputState.getD .empty) offset).stack.depth ≤
        notes.maxDepth
  absorbs_receive index block edge target targetBlock notes known state _ entered _ _ := by
    obtain ⟨input, input_eq, plainly, handling⟩ := @Block.exists_inputState_merge targetBlock
      known context.hierarchy (context.threshold ≤ known.visits) edge.isException
      (edge.carried context (block.interpret context notes))
    rw [Block.carried_interpret entered edge] at plainly
    exact ⟨input, input_eq, fun plain => (plainly plain).1, handling⟩
  absorbs_receive_other otherBlock state otherEdge index block edge target targetBlock notes known
      _ _ _ _ absorbs := by
    obtain ⟨before, before_eq, deep⟩ := absorbs
    obtain ⟨input, input_eq, plainly, handling⟩ := @Block.exists_inputState_merge targetBlock
      known context.hierarchy (context.threshold ≤ known.visits) edge.isException
      (edge.carried context (block.interpret context notes))
    exact ⟨input, input_eq,
      fun plain => Nat.le_trans (deep.le plain) ((plainly plain).2 before before_eq), handling⟩
  absorbs_transfer _ _ _ _ _ absorbs := absorbs
  done_receive block edge source notes unchanged done := by
    intro offset le
    have same : ((typeAnalysis context).receive block edge source notes).inputState =
        notes.inputState := unchanged
    rw [same]
    simp only [typeAnalysis, Block.maxDepth_merge]
    exact done offset le

/-- When nobody waits any more, the depths in a reached block are noted, and the entries
of its successors are deep enough. -/
theorem depth_settled
    (closed : graph.Closed)
    (filled : 0 < graph.blocks.size)
    {locals : List Slot}
    (drained : (graph.inferRun context locals).worklist.toList = [])
    {index : Nat}
    {block : Block}
    {state : SlotState}
    (found : graph.blocks[index]? = some block)
    (entered : ((graph.inferRun context locals).notesOn index).inputState = some state) :
    (∀ offset ≤ block.instructions.length,
        (block.stateAt context.method state offset).stack.depth ≤
          ((graph.inferRun context locals).notesOn index).maxDepth) ∧
      ∀ edge target targetBlock, graph.Crosses index block edge target targetBlock →
        ∃ input, ((graph.inferRun context locals).notesOn target).inputState = some input ∧
          IsDeepFor context block state edge targetBlock input := by
  have settled : (depthSettlement context graph).Settled (graph.inferRun context locals) := by
    refine (Analysis.Settlement.Settled.opening filled rfl).reaches closed
      (lawful (fun _ _ _ _ _ _ => trivial) fun _ _ _ _ _ _ _ _ _ _ _ => trivial)
      (Analysis.Sound.opening filled rfl trivial fun _ _ => trivial) ?_
      (Progress.reaches_run _ _)
    intro moment index _ block _ _ _ offset le
    exact @Block.depth_stateAt_le_maxDepth_interpret block context (moment.notesOn index) offset le
  have idle : index ∉ (graph.inferRun context locals).worklist.toList := by simp [drained]
  obtain ⟨noted, absorbs⟩ := settled index block state found idle entered
  refine ⟨fun offset le => ?_, absorbs⟩
  have here := noted offset le
  rwa [entered] at here

end TypeAnalysis

end StackMaps
