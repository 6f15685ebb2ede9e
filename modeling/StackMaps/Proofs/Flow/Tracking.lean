import StackMaps.Proofs.Flow.Freshness
import StackMaps.Proofs.Flow.Stability
import StackMaps.Proofs.Slots.Tracking

/-!
# Allocations along paths

A path leads from the start of a body to some point, through blocks and along edges. If
the inference is tidy, every uninitialized object that it has found at the point is, on
the way along the path, one of the latest allocation at its position. So a constructor
that returns there completes only copies of that object.
-/

namespace StackMaps

/-- Carry out an instruction of a block in a tracked state. -/
def Block.trackedAfter
    (block : Block)
    (method : MethodContext)
    (tracked : Tracked)
    (entry : Instruction × Nat) : Tracked :=
  let entered := if block.entersHandler entry.1 then tracked.enterHandler else tracked
  entered.interpret method entry.2 entry.1

/-- The tracked state that control takes along an edge. -/
def Tracked.follow (tracked : Tracked) (context : TypingContext) (edge : Edge) : Tracked :=
  { tracked with state := edge.follow context tracked.state }

namespace FlowGraph

/-- A path through a body to an offset of a block, with the tracked state there. Every
block is entered with the slots that are noted at its entry, and with the objects
that come along the path. -/
inductive Path
    (graph : FlowGraph)
    (context : TypingContext)
    (locals : List Slot)
    (noted : Nat → Notes) : Nat → Nat → Tracked → Prop
  | start
      {input : SlotState}
      (entered : (noted 0).inputState = some input) :
      Path graph context locals noted 0 0 ((Tracked.mk ⟨locals, .empty⟩ []).enter input)
  | step
      {index offset : Nat}
      {block : Block}
      {instruction : Instruction}
      {tracked : Tracked}
      (before : Path graph context locals noted index offset tracked)
      (block_eq : graph.blocks[index]? = some block)
      (found : block.instructions[offset]? = some instruction) :
      Path graph context locals noted index (offset + 1)
        (block.trackedAfter context.method tracked (instruction, block.start + offset))
  | leave
      {index offset target : Nat}
      {block : Block}
      {edge : Edge}
      {input : SlotState}
      {tracked : Tracked}
      (before : Path graph context locals noted index offset tracked)
      (block_eq : graph.blocks[index]? = some block)
      (leaves : block.LeavesAt edge offset)
      (present : (target, edge) ∈ block.successors)
      (entered : (noted target).inputState = some input) :
      Path graph context locals noted target 0 ((tracked.follow context edge).enter input)

end FlowGraph

/-! ## Steps -/

theorem SlotState.mentions_follow
    {edge : Edge}
    {context : TypingContext}
    {state : SlotState}
    {origin : Nat}
    (mentions : (edge.follow context state).Mentions origin) :
    state.Mentions origin := by
  cases edge with
  | normal => exact SlotState.mentions_drop mentions
  | exception types =>
      refine Or.inl (mentions.resolve_right fun onStack => ?_)
      exact (lenient_ne origin).holds_caughtType _ types
        (List.mem_singleton.mp onStack).symm

theorem Edge.rename_follow
    (onOrigin : Nat → Nat)
    (edge : Edge)
    (context : TypingContext)
    (state : SlotState) :
    (edge.follow context state).rename onOrigin = edge.follow context (state.rename onOrigin) := by
  cases edge with
  | normal => exact SlotState.rename_drop _
  | exception types =>
      have plain : Lenient fun slot => renameSlot onOrigin slot = slot :=
        ⟨rfl, fun type plain => congrArg some (VerificationType.map_of_isPlain onOrigin plain)⟩
      refine SlotState.ext_slots rfl ?_
      exact congrArg (· :: []) (plain.holds_caughtType _ types)

namespace Tracked

variable {tracked : Tracked} {block : Block} {method : MethodContext}
variable {entry : Instruction × Nat}

theorem Current.erase_trackedAfter (current : tracked.Current) :
    (block.trackedAfter method tracked entry).erase =
      block.stateAfter method tracked.erase entry := by
  unfold Block.trackedAfter Block.stateAfter
  dsimp only
  split
  · rw [current.enterHandler.erase_interpret, erase_enterHandler]
  · exact current.erase_interpret

theorem Current.trackedAfter
    (current : tracked.Current)
    (fresh : entry.1.isNew = true → ¬tracked.erase.Mentions entry.2) :
    (block.trackedAfter method tracked entry).Current := by
  unfold Block.trackedAfter
  dsimp only
  split
  · refine current.enterHandler.interpret fun isNew => ?_
    rw [erase_enterHandler]
    exact fun mentions => fresh isNew (SlotState.mentions_enterHandler mentions)
  · exact current.interpret fresh

theorem Current.follow (current : tracked.Current) (context : TypingContext) (edge : Edge) :
    (tracked.follow context edge).Current :=
  fun number mentions => current number (SlotState.mentions_follow mentions)

theorem erase_follow (context : TypingContext) (edge : Edge) :
    (tracked.follow context edge).erase = edge.follow context tracked.erase :=
  edge.rename_follow _ context tracked.state

end Tracked

/-! ## Paths in a tidy inference -/

namespace FlowGraph

variable {body : Body} {context : TypingContext} {locals : List Slot}

/-- Nothing refers to an allocation in front of it, if the block is entered with the
slots in the notes. -/
def FreshWithin (body : Body) (context : TypingContext) (index : Nat) (notes : Notes) : Prop :=
  ∀ block input, (ofBody body).blocks[index]? = some block → notes.inputState = some input →
    ∀ offset < block.instructions.length,
      ¬(block.stateAt context.method input offset).Mentions (block.start + offset)

/-- The entry of a successor is backed by what control takes along from all points at which
it can leave a block that has been entered with a state. -/
def BacksSuccessor
    (body : Body)
    (context : TypingContext)
    (index : Nat)
    (state : SlotState)
    (successor : Nat × Edge)
    (known : Notes) : Prop :=
  ∃ input, known.inputState = some input ∧
    ∀ block offset, (ofBody body).blocks[index]? = some block →
      block.LeavesAt successor.2 offset →
      input.BackedBy (successor.2.follow context (block.stateAt context.method state offset))

namespace Tidy

variable (tidy : (ofBody body).Tidy context locals)

include tidy

/-- In a tidy inference successors are backed, and allocations are fresh. -/
theorem accounts (clean : ∀ origin, some (.uninitialized origin) ∉ locals) :
    (typeAnalysis context).Accounts (ofBody body) ((ofBody body).opening (Notes.enterState locals))
      (FreshWithin body context) (BacksSuccessor body context) where
  receive index block target edge targetBlock notes pending progress state visiting crosses
      entered := by
    obtain ⟨input, received, backed, _⟩ := tidy.backedBy_receive visiting crosses
    refine ⟨input, received, fun same offset found leaves => ?_⟩
    obtain rfl := Option.some.inj (found.symm.trans crosses.source_eq)
    have carried := (tidy.backedBy_carried visiting crosses.mem_successors).2 offset leaves
    rw [show notes.inputState = some state from entered] at carried
    exact backed.trans carried
  receive_other index block target edge targetBlock notes pending progress visiting crosses
      other state otherEdge before := by
    obtain ⟨old, old_eq, backedBefore⟩ := before
    obtain ⟨input, received, _, backed⟩ := tidy.backedBy_receive visiting crosses
    exact ⟨input, received, fun same offset found leaves =>
      (backed old old_eq).trans (backedBefore same offset found leaves)⟩
  transfer _ _ _ _ _ _ _ before := before
  done_transfer moment index rest block reached popped found := by
    intro same input same_eq entered offset less
    obtain rfl := Option.some.inj (same_eq.symm.trans found)
    have fresh := tidy.not_mentions clean (.taken reached popped found) less
    rwa [show (moment.notesOn index).inputState = some input from entered] at fresh
  done_receive target block edge source notes _ unchanged before := by
    intro same input same_eq entered
    exact before same input same_eq (unchanged.symm.trans entered)

/-- The entry of the first block is always backed by the state at the start. -/
theorem backedBy_start
    (filled : 0 < (ofBody body).blocks.size)
    {moment : Progress}
    (reached : Progress.Reaches ((typeAnalysis context).visit (ofBody body))
      ((ofBody body).opening (Notes.enterState locals)) moment) :
    ∃ input, (moment.notesOn 0).inputState = some input ∧ input.BackedBy ⟨locals, .empty⟩ := by
  refine ((TypeAnalysis.sound_opening filled locals).induction (closed_ofBody body)
    (TypeAnalysis.lawful_true _)
    (fun moment => ∃ input, (moment.notesOn 0).inputState = some input ∧
      input.BackedBy ⟨locals, .empty⟩)
    (fun _ _ _ _ moment => ∃ input, (moment.notesOn 0).inputState = some input ∧
      input.BackedBy ⟨locals, .empty⟩) ?_ ?_ ?_ ?_).1 moment reached
  · rw [notesOn_opening filled, if_pos rfl]
    exact ⟨_, rfl, SlotState.BackedBy.refl _⟩
  · intro moment index rest block _ now before popped _
    rw [Progress.notesOn_record ⟨moment.notes, rest⟩ _ _ _ (now.lt_size popped)]
    split
    next same => exact same ▸ before
    next => exact before
  · intro index block notes target edge targetBlock pending progress visiting now crosses before
    rw [Analysis.notesOn_pass crosses.target_eq now.size_eq]
    split
    next same =>
        obtain ⟨old, old_eq, backedBefore⟩ := before
        obtain ⟨input, received, _, backed⟩ := tidy.backedBy_receive visiting crosses
        exact ⟨input, received, (backed old (same ▸ old_eq)).trans backedBefore⟩
    next => exact before
  · exact fun _ _ _ _ _ before => before

/-- Along every path the objects are those of latest allocations, and without their numbers
the slots are the ones that are interpreted from the entry of the block. -/
theorem current_of_path
    (clean : ∀ origin, some (.uninitialized origin) ∉ locals)
    (filled : 0 < (ofBody body).blocks.size)
    {finished : Progress}
    (reached : Progress.Reaches ((typeAnalysis context).visit (ofBody body))
      ((ofBody body).opening (Notes.enterState locals)) finished)
    (drained : finished.worklist.toList = [])
    {index offset : Nat}
    {tracked : Tracked}
    (path : (ofBody body).Path context locals finished.notesOn index offset tracked) :
    tracked.Current ∧
      ∃ input, (finished.notesOn index).inputState = some input ∧
        ∀ block, (ofBody body).blocks[index]? = some block →
          tracked.erase = block.stateAt context.method input offset := by
  have accounted := (tidy.accounts clean).reaches (closed_ofBody body)
    (TypeAnalysis.lawful_true _) (TypeAnalysis.sound_opening filled locals)
    (Analysis.accounted_opening filled rfl) reached
  have settled : ∀ {index block state}, (ofBody body).blocks[index]? = some block →
      (finished.notesOn index).inputState = some state →
      FreshWithin body context index (finished.notesOn index) ∧
        ∀ successor ∈ block.successors,
          BacksSuccessor body context index state successor (finished.notesOn successor.1) :=
    fun found entered => accounted _ _ _ found (by simp [drained]) entered
  induction path with
  | start entered =>
      obtain ⟨first, first_eq, backed⟩ := tidy.backedBy_start filled reached
      obtain rfl := Option.some.inj (first_eq.symm.trans entered)
      have absent : ∀ origin, ¬(Tracked.mk ⟨locals, .empty⟩ []).state.Mentions origin :=
        fun origin mentions => mentions.elim (clean origin) List.not_mem_nil
      have erased : (Tracked.mk ⟨locals, .empty⟩ []).erase = ⟨locals, .empty⟩ :=
        SlotState.rename_of_not_mentions absent
      have current : (Tracked.mk ⟨locals, .empty⟩ []).Current :=
        fun number mentions => absurd mentions (absent number)
      exact ⟨current.enter first, first, entered,
        fun _ _ => Tracked.erase_enter (erased.symm ▸ backed)⟩
  | step before found present hypothesis =>
      rename_i index offset block instruction tracked
      obtain ⟨current, input, entered, same⟩ := hypothesis
      have inside := (List.getElem?_eq_some_iff.mp present).1
      have fresh := (settled found entered).1 block input found entered offset inside
      rw [← same block found] at fresh
      refine ⟨current.trackedAfter fun _ => fresh, input, entered, fun other other_eq => ?_⟩
      obtain rfl := Option.some.inj (other_eq.symm.trans found)
      rw [current.erase_trackedAfter, same other found, Block.stateAt_succ present]
  | leave before found leaves present entered hypothesis =>
      rename_i index offset target block edge input tracked
      obtain ⟨current, state, state_eq, same⟩ := hypothesis
      obtain ⟨known, known_eq, backed⟩ := (settled found state_eq).2 _ present
      obtain rfl := Option.some.inj (known_eq.symm.trans entered)
      have backedHere := backed block offset found leaves
      rw [← same block found, ← Tracked.erase_follow] at backedHere
      exact ⟨(current.follow context edge).enter known, known, entered,
        fun other _ => Tracked.erase_enter backedHere⟩

end Tidy

/-- An inference keeps apart the objects that are allocated at one position. -/
structure KeepsApart
    (graph : FlowGraph)
    (context : TypingContext)
    (locals : List Slot)
    (noted : Nat → Notes) : Prop where
  /-- In front of an allocation nothing refers to an earlier object of it, so that there is
  nothing to forget. -/
  fresh : ∀ index block notes pending progress,
    (typeAnalysis context).Visiting graph (graph.opening (Notes.enterState locals)) index block
      notes pending progress →
    ∀ (offset : Nat) (operand : RefType),
      block.instructions[offset]? = some (.type .new operand) →
      let state := block.stateAt context.method (notes.inputState.getD .empty) offset
      ¬state.Mentions (block.start + offset) ∧
        state.replaceAll (.uninitialized (block.start + offset)) .top = state
  /-- Along every path the slots are those that have been found, and all uninitialized
  objects of an origin are copies of the one that has been allocated last. -/
  latest : ∀ index offset tracked, graph.Path context locals noted index offset tracked →
    ∃ block input, graph.blocks[index]? = some block ∧
      (noted index).inputState = some input ∧
      tracked.erase = block.stateAt context.method input offset ∧
      ∀ origin, tracked.erase.Mentions origin →
        ∃ number, IsLatest tracked.log number origin ∧ tracked.Copies origin number

theorem Tidy.keepsApart
    (tidy : (ofBody body).Tidy context locals)
    (clean : ∀ origin, some (.uninitialized origin) ∉ locals)
    (filled : 0 < (ofBody body).blocks.size)
    {finished : Progress}
    (reached : Progress.Reaches ((typeAnalysis context).visit (ofBody body))
      ((ofBody body).opening (Notes.enterState locals)) finished)
    (drained : finished.worklist.toList = []) :
    (ofBody body).KeepsApart context locals finished.notesOn where
  fresh index block notes pending progress visiting offset operand found := by
    have inside := (List.getElem?_eq_some_iff.mp found).1
    have absent := tidy.not_mentions clean visiting inside
    exact ⟨absent, SlotState.replaceAll_eq_self absent .top⟩
  latest index offset tracked path := by
    obtain ⟨current, input, entered, same⟩ :=
      tidy.current_of_path clean filled reached drained path
    have size_eq : finished.notes.size = (ofBody body).blocks.size := by
      rw [Analysis.size_reaches reached]
      simp [opening]
    have inside : index < (ofBody body).blocks.size := by
      apply Decidable.byContradiction
      intro outside
      rw [Progress.notesOn_of_size_le (size_eq ▸ Nat.le_of_not_lt outside)] at entered
      cases entered
    have found := Array.getElem?_eq_getElem inside
    exact ⟨_, input, found, entered, same _ found, fun origin => current.exists_copies⟩

end FlowGraph

namespace Session

variable (body : Body) (threshold : Nat) (hierarchy : Hierarchy) (thisClass : BinaryName)

/-- If no slot of a method is ever unknown and only lists of the same lengths are merged,
no allocation meets an earlier object of its own, and a constructor completes copies
of the object that has been allocated last. -/
theorem keepsApart_computeFrames
    (method : Method)
    (tidy : (FlowGraph.ofBody body).Tidy (body.typingContext hierarchy threshold thisClass)
      (FlowGraph.entryLocals body.instructions (method.typedStartLocals thisClass))) :
    (FlowGraph.ofBody body).KeepsApart (body.typingContext hierarchy threshold thisClass)
      (FlowGraph.entryLocals body.instructions (method.typedStartLocals thisClass))
      (((ofBody body).withThreshold threshold).notesAfter hierarchy thisClass
        (method.typedStartLocals thisClass)) := by
  by_cases empty : body.instructions = []
  · have blocks_eq : (FlowGraph.ofBody body).blocks = #[] :=
      Array.isEmpty_iff.mp (FlowGraph.isEmpty_blocks empty)
    have blank := notesAfter_of_empty threshold hierarchy thisClass
      (method.typedStartLocals thisClass) empty
    refine ⟨fun index block _ _ _ visiting => ?_, fun index offset tracked path => ?_⟩
    · simpa [blocks_eq] using visiting.block_eq
    · exfalso
      induction path with
      | start entered => simp [blank, Notes.blank] at entered
      | step _ _ _ hypothesis => exact hypothesis
      | leave _ _ _ _ _ hypothesis => exact hypothesis
  · have clean : ∀ origin, some (.uninitialized origin) ∉
        FlowGraph.entryLocals body.instructions (method.typedStartLocals thisClass) := by
      intro origin present
      exact FlowGraph.holds_of_mem_entryLocals (lenient_ne origin).top body.instructions
        ((lenient_ne origin).holds_of_mem_typedStartLocals method thisClass) _ present rfl
    rw [notesAfter_eq threshold hierarchy thisClass _ empty]
    exact tidy.keepsApart clean (FlowGraph.size_blocks_pos empty) (Progress.reaches_run _ _)
      (FlowGraph.drains_inferRun hierarchy threshold thisClass _ empty)

/-- A loop that leaves an unfinished object in its variable. -/
def allocatingLoop : Body :=
  .ofInstructions
    [.mark ⟨0⟩, .type .new (.object .string), .simple .astore0, .branch .goto ⟨0⟩] [] ⟨1⟩

/-- The loop is a single block, from which no exception leads to a handler. -/
theorem block_allocatingLoop
    {index : Nat}
    {block : Block}
    (found : (FlowGraph.ofBody allocatingLoop).blocks[index]? = some block) :
    ∃ successors needsFrame,
      block = ⟨0, allocatingLoop.instructions, successors, [], needsFrame⟩ ∧
        ∀ successor ∈ successors, successor.2 = .normal := by
  have leaders : FlowGraph.leadersOf allocatingLoop = #[true, false, false, false] := by
    simp only [FlowGraph.leadersOf, FlowGraph.instructionLeaders, FlowGraph.rangeLeaders,
      FlowGraph.targetPositions, FlowGraph.getElem?_labelPositions]
    decide +kernel
  have parts : FlowGraph.partsOf allocatingLoop = [(0, allocatingLoop.instructions)] := by
    rw [FlowGraph.partsOf, leaders]
    decide +kernel
  have handlers : FlowGraph.handlersIn (FlowGraph.segmentOf (FlowGraph.partsOf allocatingLoop))
      (FlowGraph.rangesOf allocatingLoop) index = [] := by
    simp [FlowGraph.handlersIn, FlowGraph.rangesOf, FlowGraph.placedRanges, allocatingLoop,
      Body.ofInstructions, FlowGraph.ascending, List.eraseReps, List.eraseRepsBy]
  rw [FlowGraph.getElem?_blocks_ofBody, parts] at found
  obtain ⟨part, part_eq, rfl⟩ := Option.map_eq_some_iff.mp found
  obtain rfl := List.mem_singleton.mp (List.mem_of_getElem? part_eq)
  refine ⟨_, _, by rw [FlowGraph.blockOfPart, handlers], fun successor present => ?_⟩
  obtain ⟨target, _, rfl⟩ := List.mem_map.mp present
  rfl

/-- A state with a known variable and nothing on the stack. -/
def Lone (state : SlotState) : Prop :=
  ∃ slot, slot ≠ none ∧ state = ⟨[slot], .empty⟩

/-- In a round of the loop all slots are known, and the variable is allocated anew. -/
theorem known_stateAt_allocatingLoop
    {block : Block}
    (instructions_eq : block.instructions = allocatingLoop.instructions)
    (start_eq : block.start = 0)
    (handlers_eq : block.handlers = [])
    {state : SlotState}
    (lone : Lone state)
    (method : MethodContext)
    {offset : Nat}
    (le : offset ≤ block.instructions.length) :
    (block.stateAt method state offset).All (· ≠ none) ∧
      block.stateAt method state block.instructions.length =
        ⟨[some (.uninitialized 1)], .empty⟩ := by
  obtain ⟨slot, known, rfl⟩ := lone
  obtain ⟨start, instructions, successors, handlers, needsFrame⟩ := block
  simp only at instructions_eq start_eq handlers_eq
  subst instructions_eq start_eq handlers_eq
  refine ⟨?_, rfl⟩
  have all : ∀ slots : List Slot, slots = [] ∨ slots = [slot] ∨
      slots = [some (.uninitialized 1)] → ∀ other ∈ slots, other ≠ none := by
    rintro _ (rfl | rfl | rfl)
    · exact fun _ absent => absurd absent List.not_mem_nil
    · exact List.forall_mem_singleton.mpr known
    · exact List.forall_mem_singleton.mpr (by simp)
  have bound : offset ≤ 4 := le
  obtain rfl | rfl | rfl | rfl | rfl :
      offset = 0 ∨ offset = 1 ∨ offset = 2 ∨ offset = 3 ∨ offset = 4 := by omega
  · exact ⟨all _ (Or.inr (Or.inl rfl)), all _ (Or.inl rfl)⟩
  · exact ⟨all _ (Or.inr (Or.inl rfl)), all _ (Or.inl rfl)⟩
  · exact ⟨all _ (Or.inr (Or.inl rfl)), all _ (Or.inr (Or.inr rfl))⟩
  · exact ⟨all _ (Or.inr (Or.inr rfl)), all _ (Or.inl rfl)⟩
  · exact ⟨all _ (Or.inr (Or.inr rfl)), all _ (Or.inl rfl)⟩

/-- What goes back to the start of the loop has one variable and nothing on the stack. -/
theorem carried_allocatingLoop
    {context : TypingContext}
    {index target : Nat}
    {block : Block}
    {edge : Edge}
    (found : (FlowGraph.ofBody allocatingLoop).blocks[index]? = some block)
    (present : (target, edge) ∈ block.successors)
    {notes : Notes}
    {state : SlotState}
    (entered : notes.inputState = some state)
    (lone : Lone state) :
    edge.carried context (block.interpret context notes) =
      ⟨[some (.uninitialized 1)], .empty⟩ := by
  obtain ⟨successors, needsFrame, rfl, normal⟩ := block_allocatingLoop found
  obtain rfl : edge = .normal := normal _ present
  rw [Edge.carried, Block.outputState_interpret, entered, Option.getD_some,
    (known_stateAt_allocatingLoop rfl rfl rfl lone _ (Nat.zero_le _)).2]
  exact SlotState.ext_slots rfl List.drop_nil

theorem lawful_allocatingLoop (context : TypingContext) :
    (typeAnalysis context).Lawful (FlowGraph.ofBody allocatingLoop)
      fun _ notes => ∀ state, notes.inputState = some state → Lone state := by
  refine TypeAnalysis.lawful (fun _ _ _ _ _ before => before) ?_
  intro index block edge target targetBlock notes known crosses entered before targetBefore
  obtain ⟨state, state_eq⟩ := Option.isSome_iff_exists.mp entered
  have carried := @carried_allocatingLoop context _ _ _ _ crosses.source_eq crosses.mem_successors
    _ _ state_eq (before state state_eq)
  obtain ⟨successors, needsFrame, rfl, _⟩ := block_allocatingLoop crosses.target_eq
  simp only [typeAnalysis]
  rw [carried, Block.merge_of_handlers_eq_nil rfl]
  rintro _ ⟨⟩
  simp only [Block.mergedLocals, Block.mergedStack]
  cases target_eq : known.inputState with
  | none => exact ⟨_, by simp, rfl⟩
  | some input =>
      obtain ⟨slot, slotKnown, rfl⟩ := targetBefore input target_eq
      exact ⟨_, Hierarchy.holds_mergeSlot (Hierarchy.merges_known _) _ slotKnown (by simp), rfl⟩

theorem tidy_allocatingLoop (context : TypingContext) (operand : RefType) :
    (FlowGraph.ofBody allocatingLoop).Tidy context [some (.object operand)] := by
  have closed := FlowGraph.closed_ofBody allocatingLoop
  have opening : (typeAnalysis context).Sound (FlowGraph.ofBody allocatingLoop)
      (fun _ notes => ∀ state, notes.inputState = some state → Lone state)
      ((FlowGraph.ofBody allocatingLoop).opening (Notes.enterState [some (.object operand)])) := by
    refine Analysis.Sound.opening (FlowGraph.size_blocks_pos (by decide)) rfl ?_
      fun _ _ _ absent => ?_
    · rintro _ ⟨⟩
      exact ⟨_, by simp, rfl⟩
    · cases absent
  have noted : ∀ {progress}, (typeAnalysis context).Moment (FlowGraph.ofBody allocatingLoop)
      ((FlowGraph.ofBody allocatingLoop).opening (Notes.enterState [some (.object operand)]))
      progress → ∀ index state, (progress.notesOn index).inputState = some state → Lone state := by
    intro progress moment index
    exact (opening.moment closed (lawful_allocatingLoop context) moment).valid_of_blank
      (fun _ _ absent => by cases absent) index
  have entry : ∀ {index block notes pending progress},
      (typeAnalysis context).Visiting (FlowGraph.ofBody allocatingLoop)
        ((FlowGraph.ofBody allocatingLoop).opening (Notes.enterState [some (.object operand)]))
        index block notes pending progress →
      ∃ state, notes.inputState = some state ∧ Lone state := by
    intro index block notes pending progress visiting
    obtain ⟨_, lone, entered⟩ := opening.visiting closed (lawful_allocatingLoop context) visiting
    obtain ⟨state, state_eq⟩ := Option.isSome_iff_exists.mp entered
    exact ⟨state, state_eq, lone state state_eq⟩
  refine ⟨fun progress moment index state entered => ?_,
    fun index block notes pending progress visiting offset le => ?_,
    fun index block notes pending progress visiting leaves => ?_,
    fun index block notes target edge pending progress targetBlock input visiting _ entered => ?_⟩
  · obtain ⟨slot, known, rfl⟩ := noted moment index state entered
    exact ⟨List.forall_mem_singleton.mpr known, fun _ absent => absurd absent List.not_mem_nil⟩
  · obtain ⟨state, state_eq, lone⟩ := entry visiting
    obtain ⟨successors, needsFrame, rfl, _⟩ := block_allocatingLoop visiting.block_eq
    rw [state_eq]
    exact (known_stateAt_allocatingLoop rfl rfl rfl lone _ le).1
  · obtain ⟨successors, needsFrame, rfl, normal⟩ := block_allocatingLoop visiting.block_eq
    obtain ⟨successor, present, thrown⟩ := List.any_eq_true.mp leaves
    rw [normal successor present] at thrown
    cases thrown
  · obtain ⟨state, state_eq, lone⟩ := entry visiting
    obtain ⟨slot, _, rfl⟩ := noted (Or.inr ⟨_, _, _, _, visiting⟩) target input entered
    rw [carried_allocatingLoop visiting.block_eq (visiting.subset List.mem_cons_self) state_eq lone]
    exact ⟨rfl, fun _ => rfl⟩

/-- A method that allocates in its loop. -/
def allocatingMethod : Method := ⟨⟨"run", by decide⟩, ⟨[], none⟩, .empty, some allocatingLoop⟩

/-- In the loop, where the unfinished object and the receiver meet in `top`, no allocation
meets an earlier object. -/
theorem keepsApart_computeFrames_allocatingLoop :
    (FlowGraph.ofBody allocatingLoop).Tidy
        (allocatingLoop.typingContext cyclicTable.hierarchy 1 .string)
        (FlowGraph.entryLocals allocatingLoop.instructions
          (allocatingMethod.typedStartLocals .string)) ∧
      (FlowGraph.ofBody allocatingLoop).KeepsApart
        (allocatingLoop.typingContext cyclicTable.hierarchy 1 .string)
        (FlowGraph.entryLocals allocatingLoop.instructions
          (allocatingMethod.typedStartLocals .string))
        (((ofBody allocatingLoop).withThreshold 1).notesAfter cyclicTable.hierarchy .string
          (allocatingMethod.typedStartLocals .string)) := by
  have locals : FlowGraph.entryLocals allocatingLoop.instructions
      (allocatingMethod.typedStartLocals .string) = [some (.object (.object .string))] := by decide
  have tidy : (FlowGraph.ofBody allocatingLoop).Tidy
      (allocatingLoop.typingContext cyclicTable.hierarchy 1 .string)
      (FlowGraph.entryLocals allocatingLoop.instructions
        (allocatingMethod.typedStartLocals .string)) :=
    locals ▸ tidy_allocatingLoop _ (.object .string)
  exact ⟨tidy, keepsApart_computeFrames allocatingLoop 1 cyclicTable.hierarchy .string
    allocatingMethod tidy⟩

end Session

end StackMaps
