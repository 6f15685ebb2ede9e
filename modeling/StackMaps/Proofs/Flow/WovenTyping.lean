import StackMaps.Proofs.Flow.Cutting
import StackMaps.Proofs.Flow.Mirroring
import StackMaps.Proofs.Flow.WovenGraph
import StackMaps.Proofs.Slots.RenamedJoin

/-!
# The inference of a woven body

A label that is put into a block changes nothing that is known there, and allocations have
their new positions as origins. So the inference of the woven body keeps step with that of
the body, as long as no stack is cut where control passes on.
-/

namespace StackMaps

/-- Notes with other origins for the uninitialized objects. -/
def Notes.rename (onOrigin : Nat → Nat) (notes : Notes) : Notes :=
  { notes with
    inputState := notes.inputState.map (SlotState.rename onOrigin)
    outputState := notes.outputState.rename onOrigin
    exceptionLocals := notes.exceptionLocals.map (renameSlot onOrigin)
    caught := renameSlot onOrigin notes.caught }

/-- A count with other origins for the uninitialized objects. -/
def TypeCount.rename (onOrigin : Nat → Nat) (count : TypeCount) : TypeCount :=
  { state := count.state.rename onOrigin
    maxDepth := count.maxDepth
    exceptionLocals := count.exceptionLocals.map (renameSlot onOrigin) }

theorem Notes.rename_blank (onOrigin : Nat → Nat) : Notes.blank.rename onOrigin = .blank := rfl

/-! ## Merges -/

section Merges

variable {onOrigin : Nat → Nat} (injective : Function.Injective onOrigin)
variable {hierarchy : Hierarchy} {incoming : SlotState} {notes : Notes}

include injective

theorem Block.merge_rename (block : Block) (widen fromException : Bool) :
    block.merge hierarchy widen fromException (incoming.rename onOrigin)
        (notes.rename onOrigin) =
      (block.merge hierarchy widen fromException incoming notes).rename onOrigin := by
  have locals_eq : mergedLocals hierarchy widen (incoming.rename onOrigin)
      (notes.rename onOrigin) =
        (mergedLocals hierarchy widen incoming notes).map (renameSlot onOrigin) := by
    unfold mergedLocals Notes.rename
    cases notes.inputState with
    | none => rfl
    | some input => exact Hierarchy.mergeSlots_map_renameSlot injective widen _ _
  have stack_eq : mergedStack hierarchy widen (incoming.rename onOrigin)
      (notes.rename onOrigin) =
        (mergedStack hierarchy widen incoming notes).map (renameSlot onOrigin) := by
    unfold mergedStack Notes.rename
    cases notes.inputState with
    | none => rfl
    | some input => exact Hierarchy.mergeStack_map_renameSlot injective widen _ _
  have caught_eq : mergedCaught hierarchy widen fromException (incoming.rename onOrigin)
      (notes.rename onOrigin) =
        renameSlot onOrigin (mergedCaught hierarchy widen fromException incoming notes) := by
    have known : (renameSlot onOrigin notes.caught).isSome = notes.caught.isSome := by
      cases notes.caught <;> rfl
    simp only [mergedCaught, Notes.rename, SlotState.peek_rename,
      Hierarchy.join_renameSlot injective, (renameSlot_injective injective).eq_iff, known]
    split
    · split
      · rfl
      · split
        · rfl
        · rfl
    · rfl
  by_cases plain : block.handlers = []
  · rw [merge_of_handlers_eq_nil plain, merge_of_handlers_eq_nil plain, locals_eq, stack_eq]
    rfl
  · rw [merge_of_handlers_ne_nil plain, merge_of_handlers_ne_nil plain, locals_eq, caught_eq]
    rfl

end Merges

/-! ## Visits -/

/-- The greatest depth covers that of the state, and the locals for handlers have taken in
those of the state. -/
structure TypeCount.Settled
    (hierarchy : Hierarchy)
    (block : Block)
    (count : TypeCount) : Prop where
  depth_le : count.state.stack.depth ≤ count.maxDepth
  locals_le : block.hasExceptionEdge = true →
    hierarchy.SlotsLe count.state.locals count.exceptionLocals

theorem Block.settled_firstCount (hierarchy : Hierarchy) (block : Block) (notes : Notes) :
    (block.firstCount notes).Settled hierarchy block where
  depth_le := Nat.le_max_right _ _
  locals_le leaves := by
    simp only [firstCount, if_pos leaves]
    exact Hierarchy.SlotsLe.refl _

theorem Block.settled_typeStep
    (block : Block)
    (context : TypingContext)
    (count : TypeCount)
    (entry : Instruction × Nat) :
    (block.typeStep context count entry).Settled context.hierarchy block where
  depth_le := Nat.le_max_right _ _
  locals_le leaves := by
    simp only [typeStep, if_pos leaves]
    exact Hierarchy.slotsLe_mergeSlots_right _ _

/-- The woven instructions with their positions. -/
theorem zipIdx_weave_cons
    {label? : Nat → Option Label}
    {position : Nat}
    {instruction : Instruction}
    {rest : List Instruction} :
    (weave label? position (instruction :: rest)).zipIdx (front label? position) =
      ((label? position).toList.map fun label => (.mark label, front label? position)) ++
        (instruction, moved label? position) ::
          (weave label? (position + 1) rest).zipIdx (front label? (position + 1)) := by
  rw [weave, front_succ]
  cases present : label? position with
  | none => simp [moved_of_none present]
  | some label => simp [moved_of_some present]

namespace Block

section Woven

variable {label? : Nat → Option Label} (block : Block)
variable {context newContext : TypingContext}
variable (renames : ∀ state : SlotState,
  state.Renames (moved label?) context.method newContext.method)
variable (hierarchy_eq : newContext.hierarchy = context.hierarchy)

include renames

theorem stateAfter_weave (state : SlotState) (instruction : Instruction) (position : Nat) :
    (block.weave label?).stateAfter newContext.method (state.rename (moved label?))
        (instruction, moved label? position) =
      (block.stateAfter context.method state (instruction, position)).rename
        (moved label?) := by
  have entered : (if block.entersHandler instruction = true
        then (state.rename (moved label?)).enterHandler else state.rename (moved label?)) =
      (if block.entersHandler instruction = true then state.enterHandler else state).rename
        (moved label?) := by
    split
    · exact SlotState.rename_enterHandler.symm
    · rfl
  exact (congrArg (·.interpret newContext.method (moved label? position) instruction)
    entered).trans ((renames _).rename_interpret fun _ => rfl).symm

include hierarchy_eq

/-- An instruction of a block does the same behind the labels. -/
theorem typeStep_weave (count : TypeCount) (instruction : Instruction) (position : Nat) :
    (block.weave label?).typeStep newContext (count.rename (moved label?))
        (instruction, moved label? position) =
      (block.typeStep context count (instruction, position)).rename (moved label?) := by
  have state_eq := block.stateAfter_weave renames count.state instruction position
  simp only [typeStep, TypeCount.rename, state_eq, hierarchy_eq, TypeCount.mk.injEq, true_and,
    SlotState.depth_stack_rename, SlotState.locals_rename, hasExceptionEdge_weave]
  rw [Hierarchy.mergeSlots_map_renameSlot moved_strictMono.injective]
  split
  · rfl
  · rfl

omit renames in
/-- A label that has been put into a block changes nothing. -/
theorem typeStep_injected
    {count : TypeCount}
    (settled : count.Settled context.hierarchy block)
    {label : Label}
    (silent : block.entersHandler (.mark label) = false)
    (place : Nat) :
    (block.weave label?).typeStep newContext (count.rename (moved label?)) (.mark label, place) =
      count.rename (moved label?) := by
  have state_eq : (block.weave label?).stateAfter newContext.method
      (count.rename (moved label?)).state (.mark label, place) =
        (count.rename (moved label?)).state := by
    simp only [stateAfter, entersHandler_weave, silent, Bool.false_eq_true, if_false]
    rfl
  have locals_eq : (if (block.weave label?).hasExceptionEdge = true then
      newContext.hierarchy.mergeSlots false (count.rename (moved label?)).exceptionLocals
        (count.rename (moved label?)).state.locals
      else (count.rename (moved label?)).exceptionLocals) =
        (count.rename (moved label?)).exceptionLocals := by
    split
    next leaves =>
        rw [hierarchy_eq]
        refine (Hierarchy.mergeSlots_map_renameSlot moved_strictMono.injective _ _ _).trans ?_
        rw [Hierarchy.mergeSlots_eq_self_iff.mpr (settled.locals_le leaves)]
        rfl
    next => rfl
  simp only [typeStep, state_eq, locals_eq]
  rw [Nat.max_eq_left (show (count.rename (moved label?)).state.stack.depth ≤
    (count.rename (moved label?)).maxDepth from settled.depth_le)]

/-- Going through the woven instructions finds the same. -/
theorem foldl_typeStep_weave
    (silent : ∀ position label, label? position = some label →
      block.entersHandler (.mark label) = false)
    (instructions : List Instruction)
    (position : Nat)
    {count : TypeCount}
    (settled : count.Settled context.hierarchy block) :
    ((StackMaps.weave label? position instructions).zipIdx (front label? position)).foldl
        ((block.weave label?).typeStep newContext) (count.rename (moved label?)) =
      ((instructions.zipIdx position).foldl (block.typeStep context) count).rename
        (moved label?) := by
  induction instructions generalizing position count with
  | nil => rfl
  | cons instruction rest hypothesis =>
      rw [zipIdx_weave_cons, List.foldl_append, List.foldl_cons, List.zipIdx_cons, List.foldl_cons]
      have labels : ((label? position).toList.map
          fun label => (Instruction.mark label, front label? position)).foldl
            ((block.weave label?).typeStep newContext) (count.rename (moved label?)) =
          count.rename (moved label?) := by
        cases present : label? position with
        | none => rfl
        | some label =>
            exact block.typeStep_injected hierarchy_eq settled (silent position label present) _
      rw [labels, block.typeStep_weave renames hierarchy_eq]
      exact hypothesis _ (settled_typeStep block context count _)

/-- A visit of a woven block finds the same. -/
theorem interpret_weave
    (silent : ∀ position label, label? position = some label →
      block.entersHandler (.mark label) = false)
    (notes : Notes) :
    (block.weave label?).interpret newContext (notes.rename (moved label?)) =
      (block.interpret context notes).rename (moved label?) := by
  have first_eq : (block.weave label?).firstCount (notes.rename (moved label?)) =
      (block.firstCount notes).rename (moved label?) := by
    have state_eq : (notes.inputState.map (SlotState.rename (moved label?))).getD .empty =
        (notes.inputState.getD .empty).rename (moved label?) := by
      cases notes.inputState <;> rfl
    simp only [firstCount, Notes.rename, TypeCount.rename, state_eq, TypeCount.mk.injEq, true_and,
      SlotState.depth_stack_rename, SlotState.locals_rename, hasExceptionEdge_weave]
    split
    · rfl
    · rfl
  have counted := block.foldl_typeStep_weave renames hierarchy_eq silent block.instructions
    block.start
    (settled_firstCount context.hierarchy block notes)
  rw [← first_eq] at counted
  have outcome : ∀ count other : TypeCount, count = other.rename (moved label?) →
      { notes.rename (moved label?) with
        outputState := count.state
        maxDepth := count.maxDepth
        exceptionLocals := count.exceptionLocals
        visits := notes.visits + 1 } =
      ({ notes with
        outputState := other.state
        maxDepth := other.maxDepth
        exceptionLocals := other.exceptionLocals
        visits := notes.visits + 1 } : Notes).rename (moved label?) := by
    rintro _ other rfl
    rfl
  exact outcome _ _ counted

end Woven

end Block

/-- What passes along an edge has the new origins, too, unless a stack is cut. -/
theorem Edge.carried_rename
    {onOrigin : Nat → Nat}
    {context newContext : TypingContext}
    (hierarchy_eq : newContext.hierarchy = context.hierarchy)
    (limit_le : context.stackLimit ≤ newContext.stackLimit)
    {source : Notes}
    (uncut : source.outputState.stack.depth ≤ context.stackLimit)
    (edge : Edge) :
    edge.carried newContext (source.rename onOrigin) =
      (edge.carried context source).rename onOrigin := by
  cases edge with
  | normal =>
      have whole : ∀ stack : Stack, stack.drop 0 = stack := fun stack => Stack.ext List.drop_zero
      have uncutToo : (source.rename onOrigin).outputState.stack.depth ≤ newContext.stackLimit :=
        Nat.le_trans uncut limit_le
      simp only [carried, Nat.sub_eq_zero_of_le uncut, Nat.sub_eq_zero_of_le uncutToo, whole]
      rfl
  | exception types =>
      refine SlotState.ext_slots rfl ?_
      simp only [carried, hierarchy_eq, Stack.slots_ofList, SlotState.slots_stack_rename,
        List.map_cons, List.map_nil, Hierarchy.renameSlot_caughtType]

namespace FlowGraph

/-- The notes before the first visit are renamed if the locals are. -/
theorem opening_rename
    {graph newGraph : FlowGraph}
    (size_eq : newGraph.blocks.size = graph.blocks.size)
    {onOrigin : Nat → Nat}
    {locals : List Slot}
    (plain : ∀ slot ∈ locals, renameSlot onOrigin slot = slot) :
    newGraph.opening (Notes.enterState locals) =
      (graph.opening (Notes.enterState locals)).mapNotes (Notes.rename onOrigin) := by
  have entered : (Notes.enterState locals .blank).rename onOrigin =
      Notes.enterState locals .blank := by
    have locals_eq : locals.map (renameSlot onOrigin) = locals :=
      (List.map_congr_left plain).trans (List.map_id' _)
    have state_eq : SlotState.rename onOrigin ⟨locals, .empty⟩ = ⟨locals, .empty⟩ :=
      SlotState.ext_slots locals_eq rfl
    simp only [Notes.rename, Notes.enterState, Option.map_some, state_eq]
    rfl
  simp only [opening, Progress.mapNotes, size_eq, Progress.mk.injEq, and_true]
  refine Array.ext_getElem? fun index => ?_
  simp only [Array.getElem?_map, Array.getElem?_modify, Array.getElem?_replicate]
  split
  · split
    · simp [entered]
    · rfl
  · split
    · simp [Notes.rename_blank]
    · rfl

end FlowGraph

namespace LabelPlan.Extends

variable {plan : LabelPlan} {body after : Body} (extends_ : plan.Extends body after)
variable {hierarchy : Hierarchy} {threshold : Nat} {thisClass : BinaryName}

include extends_

/-- The allocations are found at their new positions. -/
theorem renames (state : SlotState) :
    state.Renames (moved plan.injected?)
      (body.typingContext hierarchy threshold thisClass).method
      (after.typingContext hierarchy threshold thisClass).method where
  thisClass_eq := rfl
  injective _ _ _ _ same := moved_strictMono.injective same
  allocatedAt?_eq origin _ := by
    simp only [MethodContext.allocatedAt?, Body.typingContext, List.getElem?_toArray,
      extends_.getElem?_moved]

/-- A label that is put into a block is none of a handler. -/
theorem entersHandler_eq_false
    {index : Nat}
    {block : Block}
    (found : (FlowGraph.ofBody body).blocks[index]? = some block)
    {position : Nat}
    {label : Label}
    (injected : plan.injected? position = some label) :
    block.entersHandler (.mark label) = false := by
  have unknown : label ∉ block.handlers := by
    intro present
    obtain ⟨range, _, _, _, places, _, rfl⟩ := (FlowGraph.mem_handlers_iff found).mp present
    have known : range.handler.id < body.nextLabel.id :=
      extends_.ahead.of_mem_ranges places.mem_ranges (by simp [ExceptionRange.labels])
    have fresh := (extends_.of_injected? injected).2.1
    omega
  simpa [Block.entersHandler, Instruction.marks?] using unknown

theorem mirrors :
    (typeAnalysis (body.typingContext hierarchy threshold thisClass)).Mirrors
      (typeAnalysis (after.typingContext hierarchy threshold thisClass))
      (FlowGraph.ofBody body) (FlowGraph.ofBody after) (Block.weave plan.injected?)
      (Notes.rename (moved plan.injected?)) where
  blank := rfl
  blocks_eq := extends_.getElem?_blocks
  successors_eq _ := rfl
  entry_eq_iff _ _ :=
    (Option.map_injective (SlotState.rename_injective moved_strictMono.injective)).eq_iff

/-- The labels need no local slots. -/
theorem entryLocals_eq (startLocals : List Slot) :
    FlowGraph.entryLocals after.instructions startLocals =
      FlowGraph.entryLocals body.instructions startLocals := by
  have needed : FlowGraph.localsNeeded after.instructions startLocals.length =
      FlowGraph.localsNeeded body.instructions startLocals.length := by
    refine Nat.le_antisymm ?_ ?_
    · obtain ⟨least, needed⟩ := FlowGraph.localsNeeded_le_iff.mp
        (Nat.le_refl (FlowGraph.localsNeeded body.instructions startLocals.length))
      refine FlowGraph.localsNeeded_le_iff.mpr ⟨least, fun instruction present => ?_⟩
      cases real : instruction.isMark with
      | false =>
          obtain ⟨place, found⟩ := List.getElem?_of_mem present
          obtain ⟨_, _, here⟩ := extends_.exists_of_getElem? found real
          exact needed instruction (List.mem_of_getElem? here)
      | true =>
          have none_ : instruction.localsNeeded = 0 := by
            cases instruction <;> first | rfl | cases real
          rw [none_]
          exact Nat.zero_le _
    · obtain ⟨least, needed⟩ := FlowGraph.localsNeeded_le_iff.mp
        (Nat.le_refl (FlowGraph.localsNeeded after.instructions startLocals.length))
      refine FlowGraph.localsNeeded_le_iff.mpr ⟨least, fun instruction present => ?_⟩
      obtain ⟨place, found⟩ := List.getElem?_of_mem present
      exact needed instruction
        (List.mem_of_getElem? ((extends_.getElem?_moved place).trans found))
  unfold FlowGraph.entryLocals
  rw [needed]

theorem stackLimit_le :
    (body.typingContext hierarchy threshold thisClass).stackLimit ≤
      (after.typingContext hierarchy threshold thisClass).stackLimit := by
  have longer : body.instructions.length ≤ after.instructions.length := by
    rw [extends_.length_instructions]
    exact front_strictMono.le_apply
  simp only [Body.typingContext]
  omega

/-- A visit that cuts no stack has its image in a visit of the woven block. -/
theorem reflects
    {index : Nat}
    {block : Block}
    (found : (FlowGraph.ofBody body).blocks[index]? = some block)
    {notes : Notes}
    (uncut : (block.interpret (body.typingContext hierarchy threshold thisClass)
      notes).outputState.stack.depth ≤
        (body.typingContext hierarchy threshold thisClass).stackLimit) :
    (typeAnalysis (body.typingContext hierarchy threshold thisClass)).Reflects
      (typeAnalysis (after.typingContext hierarchy threshold thisClass))
      (FlowGraph.ofBody body) (Block.weave plan.injected?)
      (Notes.rename (moved plan.injected?)) block notes where
  transfer_eq := block.interpret_weave extends_.renames rfl
    (fun _ _ injected => extends_.entersHandler_eq_false found injected) notes
  receive_eq target edge targetBlock known _ _ := by
    have carried_eq := @Edge.carried_rename (moved plan.injected?)
      (body.typingContext hierarchy threshold thisClass)
      (after.typingContext hierarchy threshold thisClass) rfl extends_.stackLimit_le _ uncut edge
    simp only [typeAnalysis, carried_eq]
    exact targetBlock.merge_rename moved_strictMono.injective _ _

/-- The inference of the woven body finds the same at the new positions, unless that of the
body cuts a stack. -/
theorem inferRun_eq
    {locals : List Slot}
    (plain : ∀ slot ∈ locals, renameSlot (moved plan.injected?) slot = slot)
    (neverCuts : (FlowGraph.ofBody body).NeverCuts
      (body.typingContext hierarchy threshold thisClass) locals)
    (drained : ((FlowGraph.ofBody body).inferRun
      (body.typingContext hierarchy threshold thisClass) locals).worklist.toList = []) :
    (FlowGraph.ofBody after).inferRun (after.typingContext hierarchy threshold thisClass)
        locals =
      ((FlowGraph.ofBody body).inferRun (body.typingContext hierarchy threshold thisClass)
        locals).mapNotes (Notes.rename (moved plan.injected?)) := by
  have mirrored := (@mirrors _ _ _ extends_ hierarchy threshold thisClass).run_mapNotes
    ((FlowGraph.ofBody body).typingFuel (body.typingContext hierarchy threshold thisClass)
      locals.length)
    fun moment index rest block reached popped found =>
      extends_.reflects found (neverCuts (.taken reached popped found))
  rw [← FlowGraph.opening_rename extends_.size_blocks plain] at mirrored
  have enough : (FlowGraph.ofBody body).typingFuel
        (body.typingContext hierarchy threshold thisClass) locals.length ≤
      (FlowGraph.ofBody after).typingFuel (after.typingContext hierarchy threshold thisClass)
        locals.length := by
    have limit_le := @stackLimit_le _ _ _ extends_ hierarchy threshold thisClass
    simp only [FlowGraph.typingFuel, extends_.size_blocks]
    refine Nat.succ_le_succ (Nat.mul_le_mul_left _ ?_)
    have same : (body.typingContext hierarchy threshold thisClass).threshold =
        (after.typingContext hierarchy threshold thisClass).threshold := rfl
    omega
  refine (Progress.run_eq_of_drained ?_ enough).trans mirrored
  refine (congrArg (fun progress : Progress => progress.worklist.toList) mirrored).trans ?_
  exact drained

end LabelPlan.Extends

end StackMaps
