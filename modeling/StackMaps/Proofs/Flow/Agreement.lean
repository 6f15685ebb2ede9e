import StackMaps.Method
import StackMaps.Proofs.Flow.DepthAgreement
import StackMaps.Proofs.Flow.Stability

/-!
# The agreement of the two analyses

The count and the inference of a body reach the same blocks and, unless a depth is
cut, find the same greatest depth. They find the same number of locals if the
inference never stores a wide value as if it were a narrow one.
-/

namespace StackMaps

/-! ## Locals at the start -/

theorem MethodDescriptor.length_parameterSlots (descriptor : MethodDescriptor) :
    descriptor.parameterSlots.length = descriptor.parameterLength false := by
  rw [parameterSlots, parameterLength]
  induction descriptor.parameters with
  | nil => rfl
  | cons type rest hypothesis =>
      have width_eq : (if type.isWide then [some type, none] else [some type]).length =
          type.width := by
        rw [FieldType.width]
        split <;> rfl
      rw [List.flatMap_cons, List.length_append, List.foldr_cons, hypothesis, width_eq]

/-- As many locals are given to the inference as are counted. -/
theorem Method.length_typedStartLocals (method : Method) (thisClass : BinaryName) :
    (method.typedStartLocals thisClass).length = method.startLocals := by
  simp only [typedStartLocals, startLocals, List.length_append, List.length_map,
    MethodDescriptor.length_parameterSlots]
  cases method.hasReceiver with
  | false => exact Nat.zero_add _
  | true =>
      rw [MethodDescriptor.parameterLength_true]
      exact Nat.add_comm 1 _

/-! ## Narrow stores -/

namespace Block

variable {block : Block} {context : TypingContext} {method : MethodContext} {state : SlotState}

/-- No store of one slot finds a wide value on the stack when the block is entered with
the given state. -/
def StoresNarrow (block : Block) (method : MethodContext) (state : SlotState) : Prop :=
  ∀ offset instruction access, block.instructions[offset]? = some instruction →
    instruction.localAccess? = some access → access.isStore = true →
    access.kind.isWide = false →
    SlotState.isWideSlot ((block.stateAt method state offset).slotAt 0) = false

/-- Without such stores no local is made to exist beyond those that an instruction
needs. -/
theorem StoresNarrow.endOfLocals_le
    (narrow : block.StoresNarrow method state)
    {offset : Nat}
    {instruction : Instruction}
    (found : block.instructions[offset]? = some instruction) :
    block.endOfLocals (block.stateAt method state offset) instruction ≤
      instruction.localsNeeded := by
  cases accessed : instruction.localAccess? with
  | none => simp [endOfLocals, SlotState.endOfLocals, accessed]
  | some access =>
      have ordinary : block.entersHandler instruction = false := by
        cases instruction with
        | mark label => simp [Instruction.localAccess?] at accessed
        | _ => rfl
      have needed : instruction.localsNeeded = access.index + access.kind.width := by
        simp [Instruction.localsNeeded, Instruction.localSlots?, accessed]
      have stored : SlotState.storedWidth
          ((block.stateAt method state offset).storedBy access) ≤ access.kind.width := by
        cases wide : access.kind.isWide with
        | true => simpa [LocalKind.width, wide] using SlotState.storedWidth_le _
        | false =>
            have unwide : SlotState.isWideSlot
                ((block.stateAt method state offset).storedBy access) = false := by
              unfold SlotState.storedBy
              split
              next stores =>
                  simpa [LocalKind.width, wide] using
                    narrow offset instruction access found accessed stores wide
              next => rfl
            simp [SlotState.storedWidth, LocalKind.width, unwide, wide]
      simp only [endOfLocals, ordinary, Bool.false_eq_true, if_false, SlotState.endOfLocals,
        accessed, SlotState.accessEnd, needed]
      omega

end Block

namespace Body

/-- No depth is cut in any visit of the count. -/
def CountsUncut (body : Body) (startLocals : Nat) : Prop :=
  ∀ moment index rest block,
    Progress.Reaches ((FlowGraph.ofBody body).visitDepth body.depthLimit)
      ((FlowGraph.ofBody body).opening (Notes.enterWith startLocals)) moment →
    moment.worklist.pop = (some index, rest) →
    (FlowGraph.ofBody body).blocks[index]? = some block →
    block.Uncut body.depthLimit ((moment.notesOn index).inputDepth.getD 0)

/-- No store of one slot finds a wide value in any visit of the inference. -/
def StoresNarrow (body : Body) (context : TypingContext) (locals : List Slot) : Prop :=
  ∀ moment index rest block state,
    Progress.Reaches ((FlowGraph.ofBody body).visitTypes context)
      ((FlowGraph.ofBody body).opening (Notes.enterState locals)) moment →
    moment.worklist.pop = (some index, rest) →
    (FlowGraph.ofBody body).blocks[index]? = some block →
    (moment.notesOn index).inputState = some state →
    block.StoresNarrow context.method state

end Body

namespace FlowGraph

variable {body : Body} {context : TypingContext} {locals : List Slot} {startLocals : Nat}

/-! ## Reached blocks -/

section Reached

variable (filled : body.instructions ≠ [])

include filled

/-- The count reaches the blocks to which edges lead. -/
theorem isReached_countedNotes_iff (startLocals index : Nat) :
    (countedNotes body startLocals index).isReached = true ↔
      (ofBody body).Reachable index := by
  have lawful : (depthAnalysis body.depthLimit).Lawful (ofBody body)
      (fun _ notes => notes.inputState = none) :=
    DepthAnalysis.lawful (fun _ _ _ _ _ untyped => untyped)
      fun _ _ _ _ _ _ _ _ _ _ untyped => untyped
  have opening : (depthAnalysis body.depthLimit).Sound (ofBody body)
      (fun _ notes => notes.inputState = none)
      ((ofBody body).opening (Notes.enterWith startLocals)) :=
    Analysis.Sound.opening (size_blocks_pos filled) rfl rfl fun _ _ => rfl
  have sound := opening.reaches (closed_ofBody body) lawful (reaches_countRun startLocals)
  have untyped : (countedNotes body startLocals index).inputState = none :=
    sound.valid_of_blank (fun _ => rfl) index
  rw [Notes.isReached, untyped, Option.isSome_none, Bool.or_false]
  exact isSome_inputDepth_iff_reachable startLocals index filled

/-- The inference reaches the blocks to which edges lead. -/
theorem isReached_inferRun_iff
    (drained : ((ofBody body).inferRun context locals).worklist.toList = [])
    (index : Nat) :
    (((ofBody body).inferRun context locals).notesOn index).isReached = true ↔
      (ofBody body).Reachable index := by
  have lawful : (typeAnalysis context).Lawful (ofBody body)
      (fun _ notes => notes.inputDepth = none) := by
    refine TypeAnalysis.lawful (fun _ _ _ _ _ uncounted => uncounted) ?_
    intro _ _ edge _ targetBlock notes known _ _ _ uncounted
    simpa only [typeAnalysis, Block.inputDepth_merge] using uncounted
  have opening : (typeAnalysis context).Sound (ofBody body)
      (fun _ notes => notes.inputDepth = none)
      ((ofBody body).opening (Notes.enterState locals)) :=
    Analysis.Sound.opening (size_blocks_pos filled) rfl rfl fun _ _ => rfl
  have sound := opening.reaches (closed_ofBody body) lawful
    (reaches_inferRun (ofBody body) context locals)
  have uncounted := sound.valid_of_blank (fun _ => rfl) index
  rw [Notes.isReached, uncounted, Option.isSome_none, Bool.false_or]
  exact isSome_inputState_iff_reachable filled drained

end Reached

/-! ## Numbers of locals -/

section Locals

variable (filled : body.instructions ≠ [])

include filled

/-- No more locals are counted than the body needs. -/
theorem maxLocals_countedMaxes_le (startLocals : Nat) :
    (countedMaxes body startLocals).maxLocals ≤ localsNeeded body.instructions startLocals := by
  have needed := localsNeeded_le_iff.mp (Nat.le_refl (localsNeeded body.instructions startLocals))
  have lawful := DepthAnalysis.lawful_bounded (Body.depthLimit_pos filled)
    fun index block (found : (ofBody body).blocks[index]? = some block) instruction present =>
      needed.2 instruction (mem_instructions found present)
  have sound := (DepthAnalysis.sound_bounded (size_blocks_pos filled) needed.1).reaches
    (closed_ofBody body) lawful (reaches_countRun startLocals)
  rw [countedMaxes, Maxes.maxLocals_foldl_raise_le_iff]
  refine ⟨needed.1, fun entry present _ => ?_⟩
  obtain ⟨_, valid⟩ := sound.exists_valid present
  exact valid.maxLocals_le

/-- If every block is reached, all locals are counted that the body needs. -/
theorem le_maxLocals_countedMaxes
    (whole : ∀ index < (ofBody body).blocks.size, (ofBody body).Reachable index) :
    localsNeeded body.instructions startLocals ≤ (countedMaxes body startLocals).maxLocals := by
  rw [localsNeeded_le_iff]
  refine ⟨startLocals_le_maxLocals, fun instruction present => ?_⟩
  obtain ⟨position, at_position⟩ := List.getElem?_of_mem present
  obtain ⟨index, block, _, found, before, behind⟩ :=
    exists_block_covering (List.getElem?_eq_some_iff.mp at_position).1
  have reached := (isSome_inputDepth_iff_reachable startLocals index filled).mpr
    (whole index (Array.getElem?_eq_some_iff.mp found).1)
  obtain ⟨depth, depth_eq⟩ := Option.isSome_iff_exists.mp reached
  have counted := (settled_countRun filled found depth_eq).1.2
  have inside : position - block.start < block.instructions.length := by
    simp only [Block.stop] at behind
    omega
  have here : block.instructions[position - block.start]? = some instruction := by
    rw [getElem?_instructions found inside, Nat.add_sub_cancel' before, at_position]
  calc instruction.localsNeeded
      ≤ (countedNotes body startLocals index).maxLocals :=
        (localsNeeded_le_iff.mp counted).2 instruction (List.mem_of_getElem? here)
    _ ≤ (countedMaxes body startLocals).maxLocals := (le_countedMaxes found reached).2

/-- Without wide values in narrow stores the inference finds no more locals than the
body needs. -/
theorem maxLocals_inferredFraming_le
    (narrow : body.StoresNarrow context locals)
    (needs : ∀ instruction ∈ body.instructions, instruction.localsNeeded ≤ locals.length) :
    (inferredFraming body context locals).maxLocals ≤ locals.length := by
  have enters : (typeAnalysis context).Enters :=
    ⟨fun _ _ => rfl, fun _ _ _ _ => Block.isSome_inputState_merge⟩
  have opening : (typeAnalysis context).Sound (ofBody body)
      (fun _ notes => ∀ state, notes.inputState = some state →
        state.locals.length ≤ locals.length)
      ((ofBody body).opening (Notes.enterState locals)) := by
    refine Analysis.Sound.opening (size_blocks_pos filled) rfl ?_ fun _ _ _ absent => ?_
    · rintro _ ⟨⟩
      exact Nat.le_refl _
    · simp [Notes.blank] at absent
  have sound := opening.reaches_of_keeps (closed_ofBody body) enters ?_
    (reaches_inferRun (ofBody body) context locals)
  · rw [inferredFraming, maxLocals_framing_le_iff]
    refine ⟨Nat.le_refl _, fun entry present => ?_⟩
    obtain ⟨_, within⟩ := sound.exists_valid present
    exact within
  · intro moment index rest block reached soundNow popped found
    have waits := Worklist.mem_of_pop_eq_some popped
    obtain ⟨state, entered⟩ := Option.isSome_iff_exists.mp (soundNow.entered index waits)
    have few := soundNow.valid index (soundNow.consistent.lt_of_mem waits)
    refine ⟨few, ?_⟩
    intro edge target targetBlock known _ targetFew
    have narrowHere := narrow moment index rest block state reached popped found entered
    have within : ∀ offset,
        (block.stateAt context.method state offset).locals.length ≤ locals.length :=
      Block.length_locals_stateAt_le (few state entered) fun offset instruction here =>
        Nat.le_trans (narrowHere.endOfLocals_le here)
          (needs instruction (mem_instructions found (List.mem_of_getElem? here)))
    have carried := TypeAnalysis.length_locals_carried_le entered within edge
    intro merged merged_eq
    rw [Block.locals_inputState_merge merged_eq]
    exact (Block.length_mergedLocals_le_iff context.hierarchy _).mpr ⟨carried, targetFew⟩

end Locals

end FlowGraph

namespace Body

variable {body : Body}

/-! ## Criteria on paths -/

/-- No depth is cut in the count if none is cut on the paths through the body. -/
theorem countsUncut_of_depthReached
    (filled : body.instructions ≠ [])
    (once : body.PlacesLabelsOnce)
    (whole : ∀ position depth instruction, body.DepthReached position depth →
      body.instructions[position]? = some instruction →
      depth - instruction.stackEffect.pops + instruction.stackEffect.pushes ≤ body.depthLimit)
    (startLocals : Nat) :
    body.CountsUncut startLocals := by
  intro moment index rest block reached popped found offset instruction here ordinary
  rw [DepthAnalysis.visitDepth_eq (FlowGraph.closed_ofBody body)] at reached
  have sound := (FlowGraph.sound_met filled).reaches (FlowGraph.closed_ofBody body)
    (FlowGraph.lawful_met once) reached
  have waits := Worklist.mem_of_pop_eq_some popped
  obtain ⟨⟨depth, locals⟩, entry_eq⟩ := Option.isSome_iff_exists.mp (sound.entered index waits)
  have depth_eq := (DepthAnalysis.entry_eq_some_iff.mp entry_eq).1
  have atStart := (sound.valid index (sound.consistent.lt_of_mem waits)).reached block depth found
    depth_eq
  have inside := (List.getElem?_eq_some_iff.mp here).1
  rw [depth_eq, Option.getD_some]
  exact whole _ _ _ (FlowGraph.depthReached_replay once found atStart inside)
    ((FlowGraph.getElem?_instructions found inside).symm.trans here)

/-- Every block is reached by the count if every position is reached. -/
theorem isReached_of_depthReached
    (filled : body.instructions ≠ [])
    (once : body.PlacesLabelsOnce)
    (whole : ∀ position < body.instructions.length, ∃ depth, body.DepthReached position depth)
    (startLocals : Nat)
    {index : Nat}
    (inside : index < (FlowGraph.ofBody body).blocks.size) :
    (FlowGraph.countedNotes body startLocals index).isReached = true := by
  have found := Array.getElem?_eq_getElem inside
  have bounded := FlowGraph.stop_le found
  have nonempty := List.length_pos_iff.mpr (FlowGraph.instructions_ne_nil found)
  simp only [Block.stop] at bounded
  have start_lt : (FlowGraph.ofBody body).blocks[index].start < body.instructions.length := by
    omega
  obtain ⟨depth, reached⟩ := whole _ start_lt
  obtain ⟨other, block, entry, offset, position_eq, covers⟩ :=
    FlowGraph.covered_of_depthReached startLocals filled once reached
  have behind : (FlowGraph.ofBody body).blocks[index].start < block.stop := by
    rw [position_eq]
    exact Nat.add_lt_add_left covers.inside _
  obtain rfl := FlowGraph.index_eq_of_covers found (Nat.le_refl _)
    (Nat.lt_add_of_pos_right nonempty) covers.found (by omega) behind
  simp [Notes.isReached, covers.entered]

end Body

namespace Session

section Agreement

variable {body : Body} (threshold : Nat) (hierarchy : Hierarchy) (thisClass : BinaryName)
variable (startLocals : List Slot)

/-- The two analyses reach the same blocks. -/
theorem isReached_eq (index : Nat) :
    (((ofBody body).computeMaxes startLocals.length).2.notes.getD index .blank).isReached =
      (((ofBody body).withThreshold threshold).notesAfter hierarchy thisClass startLocals
        index).isReached := by
  by_cases empty : body.instructions = []
  · rw [computeMaxes_of_empty empty, notesAfter, computeFrames_of_empty threshold hierarchy
      thisClass startLocals empty]
    rfl
  · have drained := FlowGraph.drains_inferRun hierarchy threshold thisClass startLocals empty
    rw [notesAfter_eq threshold hierarchy thisClass startLocals empty,
      (computeMaxes_eq empty startLocals.length).2, Bool.eq_iff_iff,
      FlowGraph.isReached_inferRun_iff empty drained index]
    exact FlowGraph.isReached_countedNotes_iff empty startLocals.length index

/-- The count finds no more locals than the inference. -/
theorem maxLocals_computeMaxes_le :
    ((ofBody body).computeMaxes startLocals.length).1.maxLocals ≤
      (((ofBody body).withThreshold threshold).computeFrames hierarchy thisClass
        startLocals).1.maxLocals := by
  by_cases empty : body.instructions = []
  · rw [computeMaxes_of_empty empty, computeFrames_of_empty threshold hierarchy thisClass
      startLocals empty]
    exact Nat.le_refl _
  · rw [framing_computeFrames threshold hierarchy thisClass startLocals empty,
      (computeMaxes_eq empty startLocals.length).1]
    refine Nat.le_trans (FlowGraph.maxLocals_countedMaxes_le empty startLocals.length) ?_
    rw [← FlowGraph.length_entryLocals]
    exact (FlowGraph.maxLocals_framing_le_iff.mp (Nat.le_refl _)).1

/-- If no depth is cut in the count, the two analyses find the same greatest depth. -/
theorem maxStack_computeMaxes_eq
    (regular : ∀ instruction ∈ body.instructions, instruction.IsRegular)
    (uncut : body.CountsUncut startLocals.length) :
    ((ofBody body).computeMaxes startLocals.length).1.maxStack =
      (((ofBody body).withThreshold threshold).computeFrames hierarchy thisClass
        startLocals).1.maxStack := by
  by_cases empty : body.instructions = []
  · rw [computeMaxes_of_empty empty, computeFrames_of_empty threshold hierarchy thisClass
      startLocals empty]
    rfl
  · have drained := FlowGraph.drains_inferRun hierarchy threshold thisClass startLocals empty
    rw [framing_computeFrames threshold hierarchy thisClass startLocals empty,
      (computeMaxes_eq empty startLocals.length).1]
    refine Nat.le_antisymm (FlowGraph.maxStack_countedMaxes_le regular empty drained rfl)
      (FlowGraph.maxStack_inferredFraming_le regular empty ?_)
    intro index block depth found entered
    exact (FlowGraph.settled_countRun_of_visits empty (Block.Uncut · body.depthLimit) uncut
      found entered).1.2

/-- If every block is reached and no wide value is stored as a narrow one, the two
analyses find the same number of locals. -/
theorem maxLocals_computeMaxes_eq
    (whole : ∀ index < (FlowGraph.ofBody body).blocks.size,
      (((ofBody body).computeMaxes startLocals.length).2.notes.getD index .blank).isReached = true)
    (narrow : body.StoresNarrow (body.typingContext hierarchy threshold thisClass)
      (FlowGraph.entryLocals body.instructions startLocals)) :
    ((ofBody body).computeMaxes startLocals.length).1.maxLocals =
      (((ofBody body).withThreshold threshold).computeFrames hierarchy thisClass
        startLocals).1.maxLocals := by
  refine Nat.le_antisymm (maxLocals_computeMaxes_le threshold hierarchy thisClass startLocals) ?_
  by_cases empty : body.instructions = []
  · rw [computeMaxes_of_empty empty, computeFrames_of_empty threshold hierarchy thisClass
      startLocals empty]
    exact Nat.le_refl _
  · have reachable : ∀ index < (FlowGraph.ofBody body).blocks.size,
        (FlowGraph.ofBody body).Reachable index := by
      intro index inside
      have reached := whole index inside
      rw [(computeMaxes_eq empty startLocals.length).2] at reached
      exact (FlowGraph.isReached_countedNotes_iff empty startLocals.length index).mp reached
    rw [framing_computeFrames threshold hierarchy thisClass startLocals empty,
      (computeMaxes_eq empty startLocals.length).1]
    refine Nat.le_trans (FlowGraph.maxLocals_inferredFraming_le empty narrow ?_) ?_
    · intro instruction present
      rw [FlowGraph.length_entryLocals]
      exact (FlowGraph.localsNeeded_le_iff.mp (Nat.le_refl _)).2 instruction present
    · rw [FlowGraph.length_entryLocals]
      exact FlowGraph.le_maxLocals_countedMaxes empty reachable

end Agreement

/-- From the locals of a method the count and the inference reach the same blocks. The
count finds no more locals than the inference. Their greatest depths are the same if
no depth is cut in the count, and their numbers of locals if every block is reached
and no wide value is stored as a narrow one. -/
theorem computeMaxes_agrees_computeFrames
    (body : Body)
    (method : Method)
    (threshold : Nat)
    (hierarchy : Hierarchy)
    (thisClass : BinaryName)
    (regular : ∀ instruction ∈ body.instructions, instruction.IsRegular) :
    let counted := (ofBody body).computeMaxes method.startLocals
    let inferred := ((ofBody body).withThreshold threshold).computeFrames hierarchy thisClass
      (method.typedStartLocals thisClass)
    method.startLocals = (method.typedStartLocals thisClass).length ∧
      (∀ index, (counted.2.notes.getD index .blank).isReached =
        (inferred.2.notes.getD index .blank).isReached) ∧
      counted.1.maxLocals ≤ inferred.1.maxLocals ∧
      (body.CountsUncut method.startLocals → counted.1.maxStack = inferred.1.maxStack) ∧
      ((∀ index < (FlowGraph.ofBody body).blocks.size,
          (counted.2.notes.getD index .blank).isReached = true) →
        body.StoresNarrow (body.typingContext hierarchy threshold thisClass)
          (FlowGraph.entryLocals body.instructions (method.typedStartLocals thisClass)) →
        counted.1.maxLocals = inferred.1.maxLocals) := by
  have start := method.length_typedStartLocals thisClass
  rw [← start]
  exact ⟨rfl, isReached_eq threshold hierarchy thisClass _,
    maxLocals_computeMaxes_le threshold hierarchy thisClass _,
    maxStack_computeMaxes_eq threshold hierarchy thisClass _ regular,
    maxLocals_computeMaxes_eq threshold hierarchy thisClass _⟩

/-- A loop that stores a wide value, protected by a handler that drops the exception. -/
def wideLoop : Body :=
  .ofInstructions
    [.mark ⟨0⟩, .simple .lconst0, .simple .lstore1, .mark ⟨1⟩, .branch .goto ⟨0⟩, .mark ⟨2⟩,
      .simple .pop, .branch .goto ⟨0⟩]
    [⟨⟨0⟩, ⟨1⟩, ⟨2⟩, none⟩] ⟨3⟩

/-- The depths at the positions of the loop. -/
def wideLoopDepths : List Nat := [0, 0, 2, 0, 0, 1, 1, 0]

theorem depth_of_depthReached_wideLoop
    {position depth : Nat}
    (reached : wideLoop.DepthReached position depth) :
    wideLoopDepths[position]? = some depth := by
  have step : ∀ entry ∈ wideLoopDepths.zipIdx, ∀ instruction ∈ wideLoop.instructions[entry.2]?,
      (instruction.fallsThrough = true →
        wideLoopDepths[entry.2 + 1]? = some (wideLoop.depthBehind entry.1 instruction)) ∧
      ∀ label ∈ instruction.jumpTargets, ∀ target ∈ wideLoop.positionOf? label,
        wideLoopDepths[target]? = some (wideLoop.depthBehind entry.1 instruction) := by decide
  have atHandler : ∀ range ∈ wideLoop.ranges, ∀ handler ∈ wideLoop.positionOf? range.handler,
      wideLoopDepths[handler]? = some 1 := by decide
  induction reached with
  | entry _ => rfl
  | @next position depth instruction _ found falls _ hypothesis =>
      have present : (depth, position) ∈ wideLoopDepths.zipIdx :=
        List.mem_zipIdx_iff_getElem?.mpr hypothesis
      exact (step _ present instruction found).1 falls
  | @jump position depth target instruction label _ found jumps placed hypothesis =>
      have present : (depth, position) ∈ wideLoopDepths.zipIdx :=
        List.mem_zipIdx_iff_getElem?.mpr hypothesis
      exact (step _ present instruction found).2 label jumps target placed
  | throw _ places _ _ _ => exact atHandler _ places.mem_ranges _ places.handler_eq

theorem exists_depthReached_wideLoop :
    ∀ position < 8, ∃ depth, wideLoop.DepthReached position depth := by
  have zero : wideLoop.DepthReached 0 0 := .entry (by decide)
  have one := Body.DepthReached.next zero rfl rfl (by decide)
  have two := Body.DepthReached.next one rfl rfl (by decide)
  have three := Body.DepthReached.next two rfl rfl (by decide)
  have four := Body.DepthReached.next three rfl rfl (by decide)
  have five := Body.DepthReached.throw zero
    ⟨List.mem_cons_self, rfl, rfl, rfl⟩ (Nat.le_refl 0) (by decide)
  have six := Body.DepthReached.next five rfl rfl (by decide)
  have seven := Body.DepthReached.next six rfl rfl (by decide)
  intro position inside
  match position, inside with
  | 0, _ => exact ⟨_, zero⟩
  | 1, _ => exact ⟨_, one⟩
  | 2, _ => exact ⟨_, two⟩
  | 3, _ => exact ⟨_, three⟩
  | 4, _ => exact ⟨_, four⟩
  | 5, _ => exact ⟨_, five⟩
  | 6, _ => exact ⟨_, six⟩
  | 7, _ => exact ⟨_, seven⟩

/-- A constructor without parameters. -/
def plainConstructor : Method := ⟨.init, ⟨[], none⟩, .empty, some wideLoop⟩

/-- Nothing is cut in the count of the loop, all of it is reached, and its only store is a
wide one, so the two analyses find the same limits. -/
theorem computeMaxes_agrees_computeFrames_wideLoop :
    (∀ instruction ∈ wideLoop.instructions, instruction.IsRegular) ∧
      wideLoop.CountsUncut plainConstructor.startLocals ∧
      wideLoop.StoresNarrow (wideLoop.typingContext cyclicTable.hierarchy 1 .object)
        (FlowGraph.entryLocals wideLoop.instructions
          (plainConstructor.typedStartLocals .object)) ∧
      ((ofBody wideLoop).computeMaxes plainConstructor.startLocals).1.maxStack =
        (((ofBody wideLoop).withThreshold 1).computeFrames cyclicTable.hierarchy .object
          (plainConstructor.typedStartLocals .object)).1.maxStack ∧
      ((ofBody wideLoop).computeMaxes plainConstructor.startLocals).1.maxLocals =
        (((ofBody wideLoop).withThreshold 1).computeFrames cyclicTable.hierarchy .object
          (plainConstructor.typedStartLocals .object)).1.maxLocals := by
  have filled : wideLoop.instructions ≠ [] := by decide
  have once : wideLoop.PlacesLabelsOnce := by decide
  have regular : ∀ instruction ∈ wideLoop.instructions, instruction.IsRegular := by
    simp [wideLoop, Body.ofInstructions, Instruction.IsRegular]
  have uncut : wideLoop.CountsUncut plainConstructor.startLocals := by
    refine Body.countsUncut_of_depthReached filled once ?_ _
    intro position depth instruction reached found
    have shallow : ∀ depth ∈ wideLoopDepths, ∀ instruction ∈ wideLoop.instructions,
        depth - instruction.stackEffect.pops + instruction.stackEffect.pushes ≤
          wideLoop.depthLimit := by decide
    exact shallow depth (List.mem_of_getElem? (depth_of_depthReached_wideLoop reached))
      instruction (List.mem_of_getElem? found)
  have narrow : wideLoop.StoresNarrow (wideLoop.typingContext cyclicTable.hierarchy 1 .object)
      (FlowGraph.entryLocals wideLoop.instructions
        (plainConstructor.typedStartLocals .object)) := by
    intro moment index rest block state _ _ found _ offset instruction access here accessed _
      small
    have wide : ∀ instruction ∈ wideLoop.instructions, ∀ access ∈ instruction.localAccess?,
        access.kind.isWide = true := by decide
    have present := FlowGraph.mem_instructions found (List.mem_of_getElem? here)
    rw [wide instruction present access accessed] at small
    exact absurd small (by decide)
  have whole : ∀ index < (FlowGraph.ofBody wideLoop).blocks.size,
      (((ofBody wideLoop).computeMaxes plainConstructor.startLocals).2.notes.getD index
        .blank).isReached = true := by
    intro index inside
    rw [(computeMaxes_eq filled plainConstructor.startLocals).2]
    exact Body.isReached_of_depthReached filled once exists_depthReached_wideLoop _ inside
  obtain ⟨_, _, _, maxStack_eq, maxLocals_eq⟩ := computeMaxes_agrees_computeFrames wideLoop
    plainConstructor 1 cyclicTable.hierarchy .object regular
  exact ⟨regular, uncut, narrow, maxStack_eq uncut, maxLocals_eq whole narrow⟩

end Session

end StackMaps
