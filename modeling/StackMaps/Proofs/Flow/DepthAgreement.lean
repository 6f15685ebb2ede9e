import StackMaps.Proofs.Flow.Limits
import StackMaps.Proofs.Flow.Reaching
import StackMaps.Proofs.Flow.TypedDepth

/-!
# The agreement on depths

The count and the inference reach the same blocks. What the count notes at every
moment is bounded by what the inference has found in the end, and as long as no
depth is cut, the other way round.
-/

namespace StackMaps

namespace FlowGraph

variable {body : Body} {context : TypingContext} {locals : List Slot} {startLocals : Nat}
variable {index target : Nat} {block targetBlock : Block}

theorem reaches_inferRun (graph : FlowGraph) (context : TypingContext) (locals : List Slot) :
    Progress.Reaches ((typeAnalysis context).visit graph)
      (graph.opening (Notes.enterState locals)) (graph.inferRun context locals) :=
  Progress.reaches_run _ _

/-- There are notes on every block. -/
theorem notesOn_inferRun_mem (found : (ofBody body).blocks[index]? = some block) :
    ((ofBody body).inferRun context locals).notesOn index ∈
      ((ofBody body).inferRun context locals).notes.toList := by
  refine Progress.notesOn_mem ?_
  rw [Analysis.size_reaches (reaches_inferRun (ofBody body) context locals)]
  simpa [opening] using (Array.getElem?_eq_some_iff.mp found).1

/-- The limits of the inference cover the notes on every block. -/
theorem le_inferredFraming (found : (ofBody body).blocks[index]? = some block) :
    (((ofBody body).inferRun context locals).notesOn index).maxDepth ≤
      (inferredFraming body context locals).maxStack :=
  maxStack_framing_le_iff.mp (Nat.le_refl _) _ (notesOn_inferRun_mem found)

/-! ## Reached blocks -/

section Reached

variable (filled : body.instructions ≠ [])

include filled

variable (startLocals index) in
theorem isSome_inputDepth_iff_reachable :
    (countedNotes body startLocals index).inputDepth.isSome ↔
      (ofBody body).Reachable index := by
  have enters : (depthAnalysis body.depthLimit).Enters := ⟨fun _ _ => rfl, fun _ _ _ _ => rfl⟩
  have reached := enters.isSome_entry_iff_reachable (closed_ofBody body) (size_blocks_pos filled)
    rfl rfl (reaches_countRun startLocals) (drains_countRun startLocals filled) index
  simpa [depthAnalysis, countedNotes] using reached

theorem isSome_inputState_iff_reachable
    (drained : ((ofBody body).inferRun context locals).worklist.toList = []) :
    (((ofBody body).inferRun context locals).notesOn index).inputState.isSome ↔
      (ofBody body).Reachable index := by
  have enters : (typeAnalysis context).Enters :=
    ⟨fun _ _ => rfl, fun _ _ _ _ => Block.isSome_inputState_merge⟩
  exact enters.isSome_entry_iff_reachable (closed_ofBody body) (size_blocks_pos filled) rfl rfl
    (reaches_inferRun (ofBody body) context locals) drained index

end Reached

/-! ## Depths of the count -/

/-- The depths in the notes of the count are not above those that the inference has
found in the end. -/
structure Shallow
    (body : Body)
    (context : TypingContext)
    (locals : List Slot)
    (index : Nat)
    (notes : Notes) : Prop where
  depth_le : ∀ depth, notes.inputDepth = some depth →
    depth ≤ (inferredFraming body context locals).maxStack
  entry : ∀ block depth, (ofBody body).blocks[index]? = some block →
    notes.inputDepth = some depth →
    ∃ state, (((ofBody body).inferRun context locals).notesOn index).inputState = some state ∧
      (block.handlers = [] → depth ≤ state.stack.depth)
  maxDepth_le : notes.maxDepth ≤ (inferredFraming body context locals).maxStack

section Shallow

variable (regular : ∀ instruction ∈ body.instructions, instruction.IsRegular)
variable (filled : body.instructions ≠ [])
variable (drained : ((ofBody body).inferRun context locals).worklist.toList = [])
variable {notes : Notes}

include regular filled drained

/-- No depth that is replayed from the entry is above those of the inference. -/
theorem Shallow.replay_le
    (shallow : Shallow body context locals index notes)
    (found : (ofBody body).blocks[index]? = some block)
    {depth : Nat}
    (entered : notes.inputDepth = some depth)
    {offset : Nat}
    (inside : offset ≤ block.instructions.length) :
    block.replay body.depthLimit depth offset ≤
      (inferredFraming body context locals).maxStack := by
  cases offset with
  | zero => exact shallow.depth_le depth entered
  | succ offset =>
      obtain ⟨state, state_eq, le⟩ := shallow.entry block depth found entered
      have noted := (TypeAnalysis.depth_settled (closed_ofBody body) (size_blocks_pos filled)
        drained found state_eq).1 (offset + 1) inside
      calc block.replay body.depthLimit depth (offset + 1)
          ≤ (block.stateAt context.method state (offset + 1)).stack.depth :=
            Block.replay_le_depth_stateAt_of_entry found regular le inside
              fun _ => Nat.succ_pos offset
        _ ≤ (((ofBody body).inferRun context locals).notesOn index).maxDepth := noted
        _ ≤ (inferredFraming body context locals).maxStack := le_inferredFraming found

theorem Shallow.transfer
    (shallow : Shallow body context locals index notes)
    (found : (ofBody body).blocks[index]? = some block)
    (entered : notes.inputDepth.isSome) :
    Shallow body context locals index (block.countDepths body.depthLimit notes) := by
  obtain ⟨depth, depth_eq⟩ := Option.isSome_iff_exists.mp entered
  refine ⟨shallow.depth_le, shallow.entry, ?_⟩
  refine Block.maxDepth_countDepths (· ≤ (inferredFraming body context locals).maxStack)
    shallow.maxDepth_le fun offset inside => ?_
  rw [depth_eq, Option.getD_some]
  exact shallow.replay_le regular filled drained found depth_eq inside

variable (limit_eq : context.stackLimit = body.depthLimit)

include limit_eq

/-- What is passed on is bounded by the entry of the successor, which is reached. -/
theorem Shallow.passed_le
    {edge : Edge}
    (shallow : Shallow body context locals index notes)
    (crosses : (ofBody body).Crosses index block edge target targetBlock)
    {depth : Nat}
    (entered : notes.inputDepth = some depth) :
    DepthAnalysis.passed body.depthLimit block depth edge ≤
        (inferredFraming body context locals).maxStack ∧
      ∃ input,
        (((ofBody body).inferRun context locals).notesOn target).inputState = some input ∧
        (targetBlock.handlers = [] →
          DepthAnalysis.passed body.depthLimit block depth edge ≤ input.stack.depth) := by
  obtain ⟨state, state_eq, le⟩ := shallow.entry block depth crosses.source_eq entered
  obtain ⟨input, input_eq, deep⟩ := (TypeAnalysis.depth_settled (closed_ofBody body)
    (size_blocks_pos filled) drained crosses.source_eq state_eq).2 edge target targetBlock crosses
  cases edge with
  | normal =>
      refine ⟨shallow.replay_le regular filled drained crosses.source_eq entered (Nat.le_refl _),
        input, input_eq, fun plain => ?_⟩
      have nonempty := List.length_pos_iff.mpr (instructions_ne_nil crosses.source_eq)
      have atEnd : block.replay body.depthLimit depth block.instructions.length ≤
          (block.stateAt context.method state block.instructions.length).stack.depth :=
        Block.replay_le_depth_stateAt_of_entry crosses.source_eq regular le (Nat.le_refl _)
          fun _ => nonempty
      have capped := @Block.replay_le_of_pos block body.depthLimit depth
        (Body.depthLimit_pos filled) _ nonempty
        (Nat.le_refl _)
      refine Nat.le_trans ?_ (deep.le plain)
      rw [Edge.depth_carried_normal rfl, limit_eq]
      exact Nat.le_min.mpr ⟨atEnd, capped⟩
  | exception types =>
      have handles := crosses.handlers_ne_nil
      have noted := (TypeAnalysis.depth_settled (closed_ofBody body) (size_blocks_pos filled)
        drained crosses.target_eq input_eq).1 0 (Nat.zero_le _)
      rw [Block.stateAt_zero, deep.eq_one handles] at noted
      exact ⟨Nat.le_trans noted (le_inferredFraming crosses.target_eq), input, input_eq,
        fun plain => absurd plain handles⟩

theorem lawful_shallow :
    (depthAnalysis body.depthLimit).Lawful (ofBody body) (Shallow body context locals) := by
  refine DepthAnalysis.lawful ?_ ?_
  · intro index block notes found entered shallow
    exact shallow.transfer regular filled drained found entered
  · intro index block edge target targetBlock notes known crosses entered shallow targetShallow
    obtain ⟨depth, depth_eq⟩ := Option.isSome_iff_exists.mp entered
    obtain ⟨le_maxStack, input, input_eq, le⟩ :=
      shallow.passed_le regular filled drained limit_eq crosses depth_eq
    rw [DepthAnalysis.passedDepth_countDepths depth_eq]
    obtain ⟨raised, raised_eq, _, origin, _⟩ := @Notes.inputDepth_raiseTo known
      (DepthAnalysis.passed body.depthLimit block depth edge)
      (block.countDepths body.depthLimit notes).maxLocals
    refine ⟨?_, ?_, targetShallow.maxDepth_le⟩
    · intro other other_eq
      obtain rfl := Option.some.inj (raised_eq.symm.trans other_eq)
      rcases origin with rfl | before
      · exact le_maxStack
      · exact targetShallow.depth_le raised before
    · intro same other same_eq other_eq
      obtain rfl := Option.some.inj (raised_eq.symm.trans other_eq)
      obtain rfl := Option.some.inj (crosses.target_eq.symm.trans same_eq)
      rcases origin with rfl | before
      · exact ⟨input, input_eq, le⟩
      · exact targetShallow.entry targetBlock raised same_eq before

/-- No depth that is counted is above the greatest one of the inference. -/
theorem maxStack_countedMaxes_le :
    (countedMaxes body startLocals).maxStack ≤
      (inferredFraming body context locals).maxStack := by
  have opening : (depthAnalysis body.depthLimit).Sound (ofBody body)
      (Shallow body context locals) ((ofBody body).opening (Notes.enterWith startLocals)) := by
    refine Analysis.Sound.opening (size_blocks_pos filled) rfl ⟨?_, ?_, Nat.zero_le _⟩ ?_
    · rintro _ ⟨⟩
      exact Nat.zero_le _
    · rintro block _ _ ⟨⟩
      have reached := (isSome_inputState_iff_reachable filled drained).mpr .refl
      obtain ⟨state, state_eq⟩ := Option.isSome_iff_exists.mp reached
      exact ⟨state, state_eq, fun _ => Nat.zero_le _⟩
    · intro index _
      exact ⟨fun _ absent => by simp [Notes.blank] at absent,
        fun _ _ _ absent => by simp [Notes.blank] at absent, Nat.zero_le _⟩
  have sound := opening.reaches (closed_ofBody body)
    (lawful_shallow regular filled drained limit_eq) (reaches_countRun startLocals)
  rw [countedMaxes, Maxes.maxStack_foldl_raise_le_iff]
  refine ⟨Nat.zero_le _, fun entry present _ => ?_⟩
  obtain ⟨_, valid⟩ := sound.exists_valid present
  exact valid.maxDepth_le

end Shallow

/-! ## Depths of the inference -/

/-- The depths in the notes of the inference are not above those that the count has
found in the end. -/
structure Counted (body : Body) (startLocals index : Nat) (notes : Notes) : Prop where
  depth_le : ∀ state, notes.inputState = some state →
    state.stack.depth ≤ (countedMaxes body startLocals).maxStack
  entry : ∀ block state, (ofBody body).blocks[index]? = some block →
    notes.inputState = some state →
    ∃ depth, (countedNotes body startLocals index).inputDepth = some depth ∧
      (block.handlers = [] → state.stack.depth ≤ depth)
  maxDepth_le : notes.maxDepth ≤ (countedMaxes body startLocals).maxStack

section Counted

variable (regular : ∀ instruction ∈ body.instructions, instruction.IsRegular)
variable (filled : body.instructions ≠ [])
variable (uncut : ∀ (index : Nat) (block : Block) (depth : Nat),
  (ofBody body).blocks[index]? = some block →
  (countedNotes body startLocals index).inputDepth = some depth →
  block.Uncut body.depthLimit depth)
variable {notes : Notes}

include regular filled uncut

/-- No stack that is interpreted from the entry is deeper than those of the count. -/
theorem Counted.depth_stateAt_le
    (counted : Counted body startLocals index notes)
    (found : (ofBody body).blocks[index]? = some block)
    {state : SlotState}
    (entered : notes.inputState = some state)
    {offset : Nat}
    (inside : offset ≤ block.instructions.length) :
    (block.stateAt context.method state offset).stack.depth ≤
      (countedMaxes body startLocals).maxStack := by
  cases offset with
  | zero => exact counted.depth_le state entered
  | succ offset =>
      obtain ⟨depth, depth_eq, le⟩ := counted.entry block state found entered
      calc (block.stateAt context.method state (offset + 1)).stack.depth
          ≤ block.replay body.depthLimit depth (offset + 1) :=
            Block.depth_stateAt_le_replay_of_entry found regular
              (uncut index block depth found depth_eq) le inside fun _ => Nat.succ_pos offset
        _ ≤ (countedMaxes body startLocals).maxStack :=
            replay_le_countedMaxes filled found depth_eq inside

theorem Counted.transfer
    (counted : Counted body startLocals index notes)
    (found : (ofBody body).blocks[index]? = some block)
    (entered : notes.inputState.isSome) :
    Counted body startLocals index (block.interpret context notes) := by
  obtain ⟨state, state_eq⟩ := Option.isSome_iff_exists.mp entered
  refine ⟨counted.depth_le, counted.entry, ?_⟩
  refine Block.maxDepth_interpret (· ≤ (countedMaxes body startLocals).maxStack)
    counted.maxDepth_le fun offset inside => ?_
  rw [state_eq, Option.getD_some]
  exact counted.depth_stateAt_le regular filled uncut found state_eq inside

/-- The successor is reached, and if it has no handler its entry is at least as deep as
what is passed on. -/
theorem Counted.carried_le
    {edge : Edge}
    (counted : Counted body startLocals index notes)
    (crosses : (ofBody body).Crosses index block edge target targetBlock)
    {state : SlotState}
    (entered : notes.inputState = some state) :
    ∃ deeper, (countedNotes body startLocals target).inputDepth = some deeper ∧
      (targetBlock.handlers = [] →
        (edge.carried context (block.interpret context notes)).stack.depth ≤ deeper) := by
  obtain ⟨depth, depth_eq, le⟩ := counted.entry block state crosses.source_eq entered
  obtain ⟨deeper, deeper_eq, deep⟩ :=
    (settled_countRun filled crosses.source_eq depth_eq).2 edge target targetBlock crosses
  refine ⟨deeper, deeper_eq, fun plain => ?_⟩
  cases edge with
  | normal =>
      have atEnd : (block.stateAt context.method state block.instructions.length).stack.depth ≤
          block.replay body.depthLimit depth block.instructions.length :=
        Block.depth_stateAt_le_replay_of_entry crosses.source_eq regular
          (uncut index block depth crosses.source_eq depth_eq) le (Nat.le_refl _)
          fun _ => List.length_pos_iff.mpr (instructions_ne_nil crosses.source_eq)
      rw [Edge.depth_carried_normal entered]
      exact Nat.le_trans (Nat.min_le_left _ _) (Nat.le_trans atEnd deep)
  | exception types => exact absurd plain crosses.handlers_ne_nil

theorem Counted.receive
    {edge : Edge}
    {known : Notes}
    (counted : Counted body startLocals index notes)
    (targetCounted : Counted body startLocals target known)
    (crosses : (ofBody body).Crosses index block edge target targetBlock)
    (entered : notes.inputState.isSome) :
    Counted body startLocals target
      ((typeAnalysis context).receive targetBlock edge (block.interpret context notes) known) := by
  obtain ⟨state, state_eq⟩ := Option.isSome_iff_exists.mp entered
  obtain ⟨deeper, deeper_eq, le⟩ :=
    counted.carried_le regular filled uncut crosses state_eq
  simp only [typeAnalysis]
  by_cases plain : targetBlock.handlers = []
  · have known_le : ∀ other, known.inputState = some other → other.stack.depth ≤ deeper := by
      intro other other_eq
      obtain ⟨same, same_eq, le⟩ :=
        targetCounted.entry targetBlock other crosses.target_eq other_eq
      obtain rfl := Option.some.inj (deeper_eq.symm.trans same_eq)
      exact le plain
    have merged_le := (Block.depth_mergedStack_le_iff context.hierarchy
      (context.threshold ≤ known.visits)).mpr ⟨le plain, known_le⟩
    have covered := replay_le_countedMaxes filled crosses.target_eq deeper_eq (Nat.zero_le _)
    rw [Block.merge_of_handlers_eq_nil plain]
    refine ⟨?_, ?_, targetCounted.maxDepth_le⟩
    · rintro _ ⟨⟩
      exact Nat.le_trans merged_le covered
    · rintro _ _ _ ⟨⟩
      exact ⟨deeper, deeper_eq, fun _ => merged_le⟩
  · have covered := replay_le_countedMaxes filled crosses.target_eq deeper_eq
      (List.length_pos_iff.mpr (instructions_ne_nil crosses.target_eq))
    rw [Block.replay_one crosses.target_eq plain] at covered
    rw [Block.merge_of_handlers_ne_nil plain]
    refine ⟨?_, ?_, targetCounted.maxDepth_le⟩
    · rintro _ ⟨⟩
      exact covered
    · rintro same _ same_eq ⟨⟩
      obtain rfl := Option.some.inj (crosses.target_eq.symm.trans same_eq)
      exact ⟨deeper, deeper_eq, fun none_ => absurd none_ plain⟩

/-- No stack of the inference is deeper than the greatest depth that is counted. -/
theorem maxStack_inferredFraming_le :
    (inferredFraming body context locals).maxStack ≤
      (countedMaxes body startLocals).maxStack := by
  have lawful : (typeAnalysis context).Lawful (ofBody body) (Counted body startLocals) :=
    TypeAnalysis.lawful
      (fun _ _ _ found entered counted => counted.transfer regular filled uncut found entered)
      (fun _ _ _ _ _ _ _ crosses entered counted targetCounted =>
        counted.receive regular filled uncut targetCounted crosses entered)
  have opening : (typeAnalysis context).Sound (ofBody body) (Counted body startLocals)
      ((ofBody body).opening (Notes.enterState locals)) := by
    refine Analysis.Sound.opening (size_blocks_pos filled) rfl ⟨?_, ?_, Nat.zero_le _⟩ ?_
    · rintro _ ⟨⟩
      exact Nat.zero_le _
    · rintro block _ _ ⟨⟩
      have reached := (isSome_inputDepth_iff_reachable startLocals 0 filled).mpr .refl
      obtain ⟨depth, depth_eq⟩ := Option.isSome_iff_exists.mp reached
      exact ⟨depth, depth_eq, fun _ => Nat.zero_le _⟩
    · intro index _
      exact ⟨fun _ absent => by simp [Notes.blank] at absent,
        fun _ _ _ absent => by simp [Notes.blank] at absent, Nat.zero_le _⟩
  have sound := opening.reaches (closed_ofBody body) lawful
    (reaches_inferRun (ofBody body) context locals)
  rw [inferredFraming, maxStack_framing_le_iff]
  intro entry present
  obtain ⟨_, valid⟩ := sound.exists_valid present
  exact valid.maxDepth_le

end Counted

end FlowGraph

end StackMaps
