import StackMaps.Proofs.Flow.Drifting

/-!
# When widening shows

An inference in which no block is visited more often than the threshold says has
widened nothing: every larger threshold gives the same frames. How often a block is
visited depends on the body, not on the hierarchy alone, so this can be told only from
the outcome.
-/

namespace StackMaps

namespace Progress

/-- The visits of a block, with the one for which it waits. -/
def due (progress : Progress) (index : Nat) : Nat :=
  (progress.notesOn index).visits + if index ∈ progress.worklist.toList then 1 else 0

end Progress

namespace TypingContext

/-- The context with another threshold. -/
def withThreshold (context : TypingContext) (threshold : Nat) : TypingContext :=
  { context with threshold }

end TypingContext

namespace Block

variable {block : Block} {hierarchy : Hierarchy} {widen fromException : Bool}
variable {incoming : SlotState} {notes : Notes}

/-- What does not change the entry has been taken account of already. -/
theorem takes_of_inputState_eq
    (entered : notes.inputState.isSome)
    (single : ∀ state, notes.inputState = some state → block.handlers ≠ [] →
      state.stack.slots = [] ∨ state.stack.slots = [notes.caught])
    (same : (block.merge hierarchy widen fromException incoming notes).inputState =
      notes.inputState) :
    block.Takes hierarchy fromException incoming notes := by
  obtain ⟨input, input_eq⟩ := Option.isSome_iff_exists.mp entered
  have locals_eq : mergedLocals hierarchy widen incoming notes = input.locals :=
    (locals_inputState_merge (same.trans input_eq)).symm
  have locals_le : hierarchy.SlotsLe incoming.locals input.locals := by
    rw [mergedLocals, input_eq] at locals_eq
    exact Hierarchy.mergeSlots_eq_self_iff.mp locals_eq
  refine ⟨input, input_eq, locals_le, fun plain => ?_, fun handles => ?_⟩
  · rw [merge_of_handlers_eq_nil plain, input_eq] at same
    have stack_eq : mergedStack hierarchy widen incoming notes = input.stack :=
      congrArg SlotState.stack (Option.some.inj same)
    rw [mergedStack, input_eq] at stack_eq
    exact Hierarchy.mergeStack_eq_self_iff.mp stack_eq
  · rw [merge_of_handlers_ne_nil handles, input_eq] at same
    have stack_eq : Stack.ofList [mergedCaught hierarchy widen fromException incoming notes] =
        input.stack := congrArg SlotState.stack (Option.some.inj same)
    have slots_eq : input.stack.slots =
        [mergedCaught hierarchy widen fromException incoming notes] := by
      rw [← stack_eq]
      rfl
    have caught_eq : mergedCaught hierarchy widen fromException incoming notes =
        notes.caught := by
      rcases single input input_eq handles with empty | known
      · rw [empty] at slots_eq
        cases slots_eq
      · rw [known] at slots_eq
        exact (List.cons.inj slots_eq).1.symm
    refine ⟨by rw [← stack_eq, caught_eq], fun thrown => ?_⟩
    rw [mergedCaught, if_pos thrown] at caught_eq
    split at caught_eq
    next le => exact le
    next =>
        split at caught_eq
        · rw [← caught_eq]
          exact Hierarchy.slotLe_top _
        · exact caught_eq

/-- Widening makes no difference to a merge that leaves the entry as it is. -/
theorem merge_eq_of_inputState_eq
    (single : ∀ state, notes.inputState = some state → block.handlers ≠ [] →
      state.stack.slots = [] ∨ state.stack.slots = [notes.caught])
    (same : (block.merge hierarchy widen fromException incoming notes).inputState =
      notes.inputState)
    (other : Bool) :
    block.merge hierarchy other fromException incoming notes =
      block.merge hierarchy widen fromException incoming notes := by
  have entered : notes.inputState.isSome := same ▸ isSome_inputState_merge
  have takes := takes_of_inputState_eq entered single same
  rw [takes.merge_eq_self, takes.merge_eq_self]

end Block

namespace TypeAnalysis

variable {context : TypingContext} {graph : FlowGraph} {locals : Nat} {progress : Progress}
variable {index target : Nat} {block targetBlock : Block} {edge : Edge} {notes : Notes}

/-! ## Visits that are due -/

/-- What is passed on makes no visit less due. -/
theorem due_pass_le
    {Valid : Nat → Notes → Prop}
    (sound : (typeAnalysis context).Sound graph Valid progress)
    (target_eq : graph.blocks[target]? = some targetBlock)
    (other : Nat) :
    progress.due other ≤
      ((typeAnalysis context).pass graph notes progress (target, edge)).due other := by
  have visits_eq :
      (((typeAnalysis context).pass graph notes progress (target, edge)).notesOn other).visits =
        (progress.notesOn other).visits := by
    rw [Analysis.notesOn_pass target_eq sound.size_eq]
    split
    next same => rw [typeAnalysis, Block.visits_merge, same]
    next => rfl
  unfold Progress.due
  rw [visits_eq]
  refine Nat.add_le_add_left ?_ _
  by_cases waits : other ∈ progress.worklist.toList
  · have waitsStill :
        other ∈ ((typeAnalysis context).pass graph notes progress
          (target, edge)).worklist.toList :=
      (Analysis.mem_worklist_pass target_eq sound.consistent).mpr (Or.inr waits)
    rw [if_pos waits, if_pos waitsStill]
  · rw [if_neg waits]
    exact Nat.zero_le _

/-- Taking a block off the worklist and carrying it through is the visit that was due. -/
theorem due_taken
    {Valid : Nat → Notes → Prop}
    (sound : (typeAnalysis context).Sound graph Valid progress)
    {rest : Worklist}
    (popped : progress.worklist.pop = (some index, rest))
    (other : Nat) :
    ((⟨progress.notes, rest⟩ : Progress).record index
      (block.interpret context (progress.notesOn index))).due other = progress.due other := by
  have order := Worklist.toList_of_pop_eq_some popped
  have nodup := sound.consistent.nodup
  rw [order, List.nodup_cons] at nodup
  unfold Progress.due
  rw [Progress.notesOn_record ⟨progress.notes, rest⟩ _ _ _ (sound.lt_size popped),
    Progress.worklist_record, order]
  by_cases same : other = index
  · subst same
    simp [nodup.1, Block.visits_interpret]
  · simp [same, Progress.notesOn]

section Runs

variable {Valid : Nat → Notes → Prop}
variable (closed : graph.Closed) (lawful : (typeAnalysis context).Lawful graph Valid)

include closed lawful

/-- While successors receive the outcome of a visit no visit becomes less due. -/
theorem due_foldl_pass_le
    (keeps : (typeAnalysis context).Keeps graph Valid index block notes)
    (block_eq : graph.blocks[index]? = some block)
    {pending : List (Nat × Edge)}
    (contained : pending ⊆ block.successors)
    (sound : (typeAnalysis context).Sound graph Valid progress)
    (other : Nat) :
    progress.due other ≤
      (pending.foldl ((typeAnalysis context).pass graph (block.interpret context notes))
        progress).due other := by
  refine (Analysis.foldl_pass_induction
    (fun pending moment => pending ⊆ block.successors ∧
      (typeAnalysis context).Sound graph Valid moment ∧ progress.due other ≤ moment.due other)
    ?_ ⟨contained, sound, Nat.le_refl _⟩).2.2
  rintro ⟨target, edge⟩ pending moment ⟨contained, soundNow, le⟩
  obtain ⟨targetBlock, crosses⟩ := closed.exists_crosses block_eq (contained List.mem_cons_self)
  exact ⟨fun _ later => contained (List.mem_cons_of_mem _ later),
    soundNow.pass lawful.toEnters crosses keeps,
    le.trans (due_pass_le soundNow crosses.target_eq other)⟩

/-- What is due before a visit is due or done behind it. -/
theorem due_visits_le
    {before after : Progress}
    (sound : (typeAnalysis context).Sound graph Valid before)
    (visits : Progress.Visits (graph.visitTypes context) before after)
    (other : Nat) :
    before.due other ≤ after.due other := by
  obtain ⟨index, rest, popped, rfl⟩ := visits
  obtain ⟨block, block_eq⟩ := sound.exists_block popped
  have keeps := sound.keeps lawful popped block_eq
  rw [← @due_taken _ _ _ _ block _ sound _ popped other]
  simp only [FlowGraph.visitTypes, block_eq]
  exact due_foldl_pass_le closed lawful keeps block_eq (List.Subset.refl _)
    (sound.transfer lawful.toEnters popped keeps) other

/-- Until a run has ended no visit becomes less due. -/
theorem due_ends_le
    {count : Nat}
    {start last : Progress}
    (sound : (typeAnalysis context).Sound graph Valid start)
    (ends : Progress.Ends (graph.visitTypes context) count start last)
    (other : Nat) :
    start.due other ≤ last.due other := by
  induction ends with
  | idle _ => exact Nat.le_refl _
  | busy visits _ hypothesis =>
      have soundThen := sound.visits closed lawful.toEnters
        (fun _ _ _ popped block_eq => sound.keeps lawful popped block_eq) visits
      exact (due_visits_le closed lawful sound visits other).trans (hypothesis soundThen)

end Runs

/-! ## Runs with a larger threshold -/

section Raising

variable {larger : Nat}

/-- As long as a visit that is due is within the threshold, a larger one makes no
difference to what a successor receives. -/
theorem receive_withThreshold
    (raised : context.threshold ≤ larger)
    (sound : (typeAnalysis context).Sound graph (Within graph context.stackLimit locals)
      progress)
    (target_eq : graph.blocks[target]? = some targetBlock)
    (due_le : ((typeAnalysis context).pass graph notes progress (target, edge)).due target ≤
      context.threshold) :
    (typeAnalysis (context.withThreshold larger)).receive targetBlock edge notes
        (progress.notesOn target) =
      (typeAnalysis context).receive targetBlock edge notes (progress.notesOn target) := by
  by_cases early : (progress.notesOn target).visits < context.threshold
  · have notWiden : ¬context.threshold ≤ (progress.notesOn target).visits := by omega
    have notWidenThen : ¬larger ≤ (progress.notesOn target).visits := by omega
    simp only [typeAnalysis, TypingContext.withThreshold, notWiden, notWidenThen]
    rfl
  · have inside : target < graph.blocks.size := (Array.getElem?_eq_some_iff.mp target_eq).1
    have single := (sound.valid target inside targetBlock target_eq).stack_eq
    -- A change would make the target wait for one more visit than the threshold says.
    have unchanged :
        ((typeAnalysis context).receive targetBlock edge notes
          (progress.notesOn target)).inputState = (progress.notesOn target).inputState := by
      by_contra changed
      have waits : target ∈ ((typeAnalysis context).pass graph notes progress
          (target, edge)).worklist.toList :=
        (Analysis.mem_worklist_pass target_eq sound.consistent).mpr (Or.inl ⟨rfl, changed⟩)
      rw [Progress.due, if_pos waits, Analysis.notesOn_pass target_eq sound.size_eq,
        if_pos rfl] at due_le
      simp only [typeAnalysis, Block.visits_merge] at due_le
      omega
    exact Block.merge_eq_of_inputState_eq single unchanged _

/-- The same holds of the moment behind. -/
theorem pass_withThreshold
    (raised : context.threshold ≤ larger)
    (sound : (typeAnalysis context).Sound graph (Within graph context.stackLimit locals)
      progress)
    (target_eq : graph.blocks[target]? = some targetBlock)
    (due_le : ((typeAnalysis context).pass graph notes progress (target, edge)).due target ≤
      context.threshold) :
    (typeAnalysis (context.withThreshold larger)).pass graph notes progress (target, edge) =
      (typeAnalysis context).pass graph notes progress (target, edge) := by
  simp only [Analysis.pass, target_eq]
  rw [receive_withThreshold raised sound target_eq due_le]
  rfl

variable (positive : 1 ≤ context.stackLimit)
variable (needs : ∀ (index : Nat) (block : Block), graph.blocks[index]? = some block →
  ∀ instruction ∈ block.instructions, instruction.localsNeeded ≤ locals)
variable (closed : graph.Closed) (raised : context.threshold ≤ larger)

include positive needs closed raised

theorem foldl_pass_withThreshold
    (keeps : (typeAnalysis context).Keeps graph (Within graph context.stackLimit locals) index
      block notes)
    (block_eq : graph.blocks[index]? = some block)
    {pending : List (Nat × Edge)}
    (contained : pending ⊆ block.successors)
    (sound : (typeAnalysis context).Sound graph (Within graph context.stackLimit locals)
      progress)
    (due_le : ∀ other, (pending.foldl ((typeAnalysis context).pass graph
      (block.interpret context notes)) progress).due other ≤ context.threshold) :
    pending.foldl ((typeAnalysis (context.withThreshold larger)).pass graph
        (block.interpret context notes)) progress =
      pending.foldl ((typeAnalysis context).pass graph (block.interpret context notes))
        progress := by
  have lawful := lawful_within positive needs
  induction pending generalizing progress with
  | nil => rfl
  | cons successor pending hypothesis =>
      obtain ⟨target, edge⟩ := successor
      obtain ⟨targetBlock, crosses⟩ :=
        closed.exists_crosses block_eq (contained List.mem_cons_self)
      have containedThen : pending ⊆ block.successors :=
        fun _ later => contained (List.mem_cons_of_mem _ later)
      have soundThen := sound.pass lawful.toEnters crosses keeps
      have pass_eq := pass_withThreshold raised sound crosses.target_eq
        ((due_foldl_pass_le closed lawful keeps block_eq containedThen soundThen target).trans
          (due_le target))
      simp only [typeAnalysis] at pass_eq
      rw [List.foldl_cons, List.foldl_cons]
      simp only [typeAnalysis, pass_eq]
      exact hypothesis containedThen soundThen due_le

/-- A run in which no block is due more visits than the threshold says is a run with every
larger threshold. -/
theorem ends_withThreshold
    {count : Nat}
    {start last : Progress}
    (sound : (typeAnalysis context).Sound graph (Within graph context.stackLimit locals) start)
    (ends : Progress.Ends (graph.visitTypes context) count start last)
    (due_le : ∀ other, last.due other ≤ context.threshold) :
    Progress.Ends (graph.visitTypes (context.withThreshold larger)) count start last := by
  have lawful := lawful_within positive needs
  induction ends with
  | idle nobody => exact .idle nobody
  | @busy count before between last visits ends hypothesis =>
      have soundThen := sound.visits closed lawful.toEnters
        (fun _ _ _ popped block_eq => sound.keeps lawful popped block_eq) visits
      refine .busy ?_ (hypothesis soundThen due_le)
      obtain ⟨index, rest, popped, between_eq⟩ := visits
      obtain ⟨block, block_eq⟩ := sound.exists_block popped
      have keeps := sound.keeps lawful popped block_eq
      refine ⟨index, rest, popped, ?_⟩
      rw [between_eq]
      simp only [FlowGraph.visitTypes, block_eq] at between_eq ⊢
      refine (foldl_pass_withThreshold positive needs closed raised keeps block_eq
        (List.Subset.refl _) (sound.transfer lawful.toEnters popped keeps) fun other => ?_).symm
      exact between_eq ▸ (due_ends_le closed lawful soundThen ends other).trans (due_le other)

end Raising

end TypeAnalysis

namespace Progress

/-- Once nobody waits the visits that are due have been done. -/
theorem due_of_idle {progress : Progress} (idle : progress.worklist.toList = []) (index : Nat) :
    progress.due index = (progress.notesOn index).visits := by
  rw [due, idle]
  simp

end Progress

namespace Session

/-- If no block has been visited more often than the threshold says, the frames and the
limits are the same with every larger threshold. -/
theorem framing_eq_of_visits_le
    (body : Body)
    (hierarchy : Hierarchy)
    (thisClass : BinaryName)
    (startLocals : List Slot)
    {threshold larger : Nat}
    (raised : threshold ≤ larger)
    (settled : ∀ index, (((ofBody body).withThreshold threshold).notesAfter hierarchy thisClass
      startLocals index).visits ≤ threshold) :
    (((ofBody body).withThreshold larger).computeFrames hierarchy thisClass startLocals).1 =
      (((ofBody body).withThreshold threshold).computeFrames hierarchy thisClass
        startLocals).1 := by
  by_cases empty : body.instructions = []
  · rw [computeFrames_of_empty larger hierarchy thisClass startLocals empty,
      computeFrames_of_empty threshold hierarchy thisClass startLocals empty]
  · have positive := FlowGraph.stackLimit_pos hierarchy threshold thisClass empty
    obtain ⟨count, last, count_le, ends⟩ := FlowGraph.ends_inference_of_filled body hierarchy
      threshold thisClass startLocals empty
    have enough := count_le.trans (FlowGraph.visitBound_le_typingFuel body hierarchy threshold
      thisClass startLocals)
    have last_eq : (FlowGraph.ofBody body).inferRun
        (body.typingContext hierarchy threshold thisClass)
        (FlowGraph.entryLocals body.instructions startLocals) = last := ends.run_eq enough
    have due_le : ∀ other, last.due other ≤ threshold := by
      intro other
      have le := settled other
      rw [notesAfter_eq threshold hierarchy thisClass startLocals empty, last_eq] at le
      rwa [Progress.due_of_idle ends.idle_last]
    have endsThen := TypeAnalysis.ends_withThreshold positive
      (fun _ _ found _ present =>
        FlowGraph.localsNeeded_le_length_entryLocals startLocals found present)
      (FlowGraph.closed_ofBody body) raised
      (TypeAnalysis.sound_within (FlowGraph.size_blocks_pos empty) rfl) ends due_le
    have enoughThen : count ≤ (FlowGraph.ofBody body).typingFuel
        (body.typingContext hierarchy larger thisClass)
        (FlowGraph.entryLocals body.instructions startLocals).length := by
      refine enough.trans (Nat.add_le_add_right (Nat.mul_le_mul_left _ ?_) 1)
      simp only [Body.typingContext]
      omega
    have last_eq_then : (FlowGraph.ofBody body).inferRun
        (body.typingContext hierarchy larger thisClass)
        (FlowGraph.entryLocals body.instructions startLocals) = last :=
      endsThen.run_eq enoughThen
    rw [framing_computeFrames larger hierarchy thisClass startLocals empty,
      framing_computeFrames threshold hierarchy thisClass startLocals empty,
      FlowGraph.inferredFraming, FlowGraph.inferredFraming, last_eq, last_eq_then]

/-- Above as many visits as it has variables to hand on the loop is settled. -/
theorem visits_driftingLoop_le
    {hierarchy : Hierarchy}
    {first second common : BinaryName}
    (meetIn : hierarchy.MeetIn first second common)
    {count threshold : Nat}
    (few : count < 65536)
    (less : count < threshold)
    (thisClass : BinaryName)
    (index : Nat) :
    (((ofBody (driftingLoop count)).withThreshold threshold).notesAfter hierarchy thisClass
      (driftingLocals count first second) index).visits ≤ threshold := by
  have filled : (driftingLoop count).instructions ≠ [] := by
    simp [driftingLoop, Body.ofInstructions]
  obtain ⟨entry, entered, notes_eq⟩ := exists_entered_driftingLoop hierarchy threshold thisClass
    meetIn few (Nat.le_of_lt less)
  rw [notesAfter_eq threshold hierarchy thisClass _ filled, Progress.notesOn, notes_eq]
  cases index with
  | zero =>
      have visits_eq : entry.visits = count + 1 := entered.visits_eq
      exact visits_eq.trans_le less
  | succ index => exact Nat.zero_le threshold

/-- With one variable to hand on the loop is settled with two visits. -/
theorem framing_eq_of_visits_le_driftingLoop :
    (∀ index, (((ofBody (driftingLoop 1)).withThreshold 2).notesAfter unrelatedTable.hierarchy
        .object (driftingLocals 1 .string .throwable) index).visits ≤ 2) ∧
      (((ofBody (driftingLoop 1)).withThreshold 64).computeFrames unrelatedTable.hierarchy
          .object (driftingLocals 1 .string .throwable)).1 =
        (((ofBody (driftingLoop 1)).withThreshold 2).computeFrames unrelatedTable.hierarchy
          .object (driftingLocals 1 .string .throwable)).1 := by
  have settled := visits_driftingLoop_le meetIn_unrelatedTable
    (by decide : 1 < 65536) (by decide : 1 < 2) .object
  exact ⟨settled, framing_eq_of_visits_le (driftingLoop 1) unrelatedTable.hierarchy .object
    (driftingLocals 1 .string .throwable) (by decide) settled⟩

end Session

end StackMaps
