import StackMaps.Flow.Typing
import StackMaps.Proofs.Flow.Replay
import StackMaps.Proofs.Slots.Extent
import StackMaps.Proofs.Slots.Order

/-!
# Interpreting blocks

The states along a block are interpreted from the state at its entry. What a block
passes on along an edge depends on that state alone. The locals that it passes on
to handlers are above those at all of its points.
-/

namespace StackMaps

/-- Notes that tell nothing but the state at the entry. -/
def Notes.ofState (state : SlotState) : Notes :=
  { Notes.blank with inputState := some state }

namespace Block

/-- The state in front of the instruction at an offset, if the block is entered with
the given state. -/
def stateAt (block : Block) (context : MethodContext) (state : SlotState) (offset : Nat) :
    SlotState :=
  ((block.instructions.zipIdx block.start).take offset).foldl (block.stateAfter context) state

variable {block : Block} {context : TypingContext} {notes : Notes}

section States

variable {method : MethodContext} {state : SlotState}

@[simp] theorem stateAt_zero : block.stateAt method state 0 = state := rfl

theorem stateAt_succ
    {offset : Nat}
    {instruction : Instruction}
    (found : block.instructions[offset]? = some instruction) :
    block.stateAt method state (offset + 1) =
      block.stateAfter method (block.stateAt method state offset)
        (instruction, block.start + offset) := by
  have entry_eq : (block.instructions.zipIdx block.start)[offset]? =
      some (instruction, block.start + offset) := by
    simp [List.getElem?_zipIdx, found]
  rw [stateAt, List.take_add_one, entry_eq]
  simp [stateAt]

/-- Behind the last instruction the state stays as it is. -/
theorem stateAt_succ_of_none {offset : Nat} (ended : block.instructions[offset]? = none) :
    block.stateAt method state (offset + 1) = block.stateAt method state offset := by
  have entry_eq : (block.instructions.zipIdx block.start)[offset]? = none := by
    simp [List.getElem?_zipIdx, ended]
  rw [stateAt, List.take_add_one, entry_eq, Option.toList_none, List.append_nil, stateAt]

/-- An instruction makes the stack as deep as its stack effect says, counted from one
behind the mark of a handler. -/
theorem depth_stateAfter
    {instruction : Instruction}
    (regular : instruction.IsRegular)
    (position : Nat) :
    (block.stateAfter method state (instruction, position)).stack.depth =
      if block.entersHandler instruction then 1
      else
        state.stack.depth - instruction.stackEffect.pops + instruction.stackEffect.pushes := by
  cases enters : block.entersHandler instruction with
  | true =>
      obtain ⟨label, rfl⟩ : ∃ label, instruction = .mark label := by
        unfold entersHandler at enters
        cases instruction with
        | mark label => exact ⟨label, rfl⟩
        | _ => simp [Instruction.marks?] at enters
      simp [stateAfter, enters, SlotState.interpret]
  | false =>
      simp only [stateAfter, enters, Bool.false_eq_true, if_false]
      exact SlotState.depth_interpret _ _ _ _ regular

/-- The end of the local slots that an instruction makes exist behind a state. -/
def endOfLocals (block : Block) (state : SlotState) (instruction : Instruction) : Nat :=
  (if block.entersHandler instruction then state.enterHandler else state).endOfLocals instruction

theorem length_locals_stateAfter_le (entry : Instruction × Nat) :
    (block.stateAfter method state entry).locals.length ≤
      max state.locals.length (block.endOfLocals state entry.1) := by
  have bound := SlotState.length_locals_interpret_le
    (if block.entersHandler entry.1 then state.enterHandler else state) method entry.2 entry.1
  have entered : (if block.entersHandler entry.1 then state.enterHandler else state).locals =
      state.locals := by
    split <;> rfl
  rw [entered] at bound
  exact bound

/-- The locals along a block stay within a bound that covers the entry and what every
instruction makes exist. -/
theorem length_locals_stateAt_le
    {bound : Nat}
    (entry : state.locals.length ≤ bound)
    (ends : ∀ (offset : Nat) (instruction : Instruction),
      block.instructions[offset]? = some instruction →
      block.endOfLocals (block.stateAt method state offset) instruction ≤ bound)
    (offset : Nat) :
    (block.stateAt method state offset).locals.length ≤ bound := by
  induction offset with
  | zero => exact entry
  | succ offset hypothesis =>
      cases found : block.instructions[offset]? with
      | none => rwa [stateAt_succ_of_none found]
      | some instruction =>
          rw [stateAt_succ found]
          exact Nat.le_trans (length_locals_stateAfter_le _)
            (Nat.max_le.mpr ⟨hypothesis, ends offset instruction found⟩)

end States

/-! ## Visits -/

section Visits

/-- The state that an interpretation arrives at does not depend on what else it
counts. -/
theorem state_foldl_typeStep (entries : List (Instruction × Nat)) (count : TypeCount) :
    (entries.foldl (block.typeStep context) count).state =
      entries.foldl (block.stateAfter context.method) count.state := by
  induction entries generalizing count with
  | nil => rfl
  | cons entry rest hypothesis => exact hypothesis _

theorem maxDepth_typeStep (count : TypeCount) (entry : Instruction × Nat) :
    (block.typeStep context count entry).maxDepth =
      max count.maxDepth (block.typeStep context count entry).state.stack.depth := rfl

theorem exceptionLocals_foldl_typeStep_congr
    {count other : TypeCount}
    (state_eq : count.state = other.state)
    (locals_eq : count.exceptionLocals = other.exceptionLocals)
    (entries : List (Instruction × Nat)) :
    (entries.foldl (block.typeStep context) count).exceptionLocals =
      (entries.foldl (block.typeStep context) other).exceptionLocals := by
  induction entries generalizing count other with
  | nil => exact locals_eq
  | cons entry rest hypothesis =>
      refine hypothesis ?_ ?_
      · simp only [typeStep, state_eq]
      · simp only [typeStep, state_eq, locals_eq]

/-- The count with which a visit begins. -/
def firstCount (block : Block) (notes : Notes) : TypeCount :=
  { state := notes.inputState.getD .empty
    maxDepth := max notes.maxDepth (notes.inputState.getD .empty).stack.depth
    exceptionLocals :=
      if block.hasExceptionEdge then (notes.inputState.getD .empty).locals else [] }

@[simp] theorem inputState_interpret :
    (block.interpret context notes).inputState = notes.inputState := rfl

@[simp] theorem caught_interpret : (block.interpret context notes).caught = notes.caught := rfl

@[simp] theorem visits_interpret :
    (block.interpret context notes).visits = notes.visits + 1 := rfl

/-- The outgoing state is the last one that is interpreted. -/
theorem outputState_interpret :
    (block.interpret context notes).outputState =
      block.stateAt context.method (notes.inputState.getD .empty) block.instructions.length := by
  have whole : (block.instructions.zipIdx block.start).take block.instructions.length =
      block.instructions.zipIdx block.start := by
    rw [List.take_of_length_le (by simp)]
  rw [stateAt, whole]
  exact state_foldl_typeStep (block.instructions.zipIdx block.start) (block.firstCount notes)

/-- The state at an offset of a visit is the one that is interpreted there. -/
theorem state_foldl_take (offset : Nat) :
    (((block.instructions.zipIdx block.start).take offset).foldl (block.typeStep context)
        (block.firstCount notes)).state =
      block.stateAt context.method (notes.inputState.getD .empty) offset :=
  state_foldl_typeStep _ (block.firstCount notes)

/-- What has been counted in front of the instruction at an offset during a visit. -/
def countAt (block : Block) (context : TypingContext) (notes : Notes) (offset : Nat) :
    TypeCount :=
  ((block.instructions.zipIdx block.start).take offset).foldl (block.typeStep context)
    (block.firstCount notes)

/-- The state that is counted at an offset is the one that is interpreted there. -/
theorem state_countAt (offset : Nat) :
    (block.countAt context notes offset).state =
      block.stateAt context.method (notes.inputState.getD .empty) offset :=
  state_foldl_take offset

theorem exceptionLocals_countAt_zero (leaves : block.hasExceptionEdge = true) :
    (block.countAt context notes 0).exceptionLocals =
      (notes.inputState.getD .empty).locals :=
  if_pos leaves

/-- One more instruction joins the locals behind it into those for handlers. -/
theorem exceptionLocals_countAt_succ
    (leaves : block.hasExceptionEdge = true)
    {offset : Nat}
    (inside : offset < block.instructions.length) :
    (block.countAt context notes (offset + 1)).exceptionLocals =
      context.hierarchy.mergeSlots false (block.countAt context notes offset).exceptionLocals
        (block.stateAt context.method (notes.inputState.getD .empty) (offset + 1)).locals := by
  have within : offset < (block.instructions.zipIdx block.start).length := by simpa using inside
  rw [← @state_countAt block context notes (offset + 1)]
  simp only [countAt, List.take_add_one, List.getElem?_eq_getElem within, Option.toList_some,
    List.foldl_append, List.foldl_cons, List.foldl_nil]
  exact if_pos leaves

/-- A whole visit counts all instructions. -/
theorem interpret_eq_countAt :
    block.interpret context notes =
      { notes with
        outputState := (block.countAt context notes block.instructions.length).state
        maxDepth := (block.countAt context notes block.instructions.length).maxDepth
        exceptionLocals :=
          (block.countAt context notes block.instructions.length).exceptionLocals
        visits := notes.visits + 1 } := by
  have whole : (block.instructions.zipIdx block.start).take block.instructions.length =
      block.instructions.zipIdx block.start := by
    rw [List.take_of_length_le (by simp)]
  simp only [countAt, whole]
  rfl

theorem depth_stateAt_le_maxDepth_interpret
    {offset : Nat}
    (le : offset ≤ block.instructions.length) :
    (block.stateAt context.method (notes.inputState.getD .empty) offset).stack.depth ≤
      (block.interpret context notes).maxDepth := by
  have within : offset ≤ (block.instructions.zipIdx block.start).length := by simpa using le
  have greatest : (block.firstCount notes).state.stack.depth ≤
      (block.firstCount notes).maxDepth := Nat.le_max_right _ _
  have met := @Greatest.le_foldl _ _ (block.typeStep context) (fun count => count.state.stack.depth)
    TypeCount.maxDepth maxDepth_typeStep _ _ greatest _ within
  rw [state_foldl_take] at met
  exact met

/-- What holds of the greatest depth so far and of all that are met holds of the greatest
depth. -/
theorem maxDepth_interpret
    (Holds : Nat → Prop)
    (before : Holds notes.maxDepth)
    (met : ∀ offset ≤ block.instructions.length,
      Holds (block.stateAt context.method (notes.inputState.getD .empty) offset).stack.depth) :
    Holds (block.interpret context notes).maxDepth := by
  refine @Greatest.foldl_induction _ _ (block.typeStep context)
    (fun count => count.state.stack.depth) TypeCount.maxDepth maxDepth_typeStep Holds
    (block.instructions.zipIdx block.start) (block.firstCount notes) ?_ fun offset le => ?_
  · exact Greatest.max_induction Holds before (met 0 (Nat.zero_le _))
  · rw [state_foldl_take]
    exact met offset (by simpa using le)

theorem exceptionLocals_interpret :
    (block.interpret context notes).exceptionLocals =
      ((block.instructions.zipIdx block.start).foldl (block.typeStep context)
        (block.firstCount notes)).exceptionLocals := rfl

/-- What is passed on along an edge depends on the state at the entry alone. -/
theorem carried_interpret
    {state : SlotState}
    (entered : notes.inputState = some state)
    (edge : Edge) :
    edge.carried context (block.interpret context notes) =
      edge.carried context (block.interpret context (.ofState state)) := by
  have same : notes.inputState = (Notes.ofState state).inputState := entered
  cases edge with
  | normal => simp only [Edge.carried, outputState_interpret, same]
  | exception types =>
      have locals_eq : (block.interpret context notes).exceptionLocals =
          (block.interpret context (.ofState state)).exceptionLocals := by
        rw [exceptionLocals_interpret, exceptionLocals_interpret]
        exact exceptionLocals_foldl_typeStep_congr (by simp [firstCount, same])
          (by simp [firstCount, same]) _
      simp only [Edge.carried, locals_eq]

theorem length_exceptionLocals_foldl_typeStep_le
    {bound : Nat}
    (entries : List (Instruction × Nat))
    (count : TypeCount)
    (before : count.exceptionLocals.length ≤ bound)
    (within : ∀ offset,
      ((entries.take offset).foldl (block.stateAfter context.method) count.state).locals.length ≤
        bound) :
    (entries.foldl (block.typeStep context) count).exceptionLocals.length ≤ bound := by
  induction entries generalizing count with
  | nil => exact before
  | cons entry rest hypothesis =>
      refine hypothesis _ ?_ fun offset => within (offset + 1)
      simp only [typeStep]
      split
      · rw [Hierarchy.length_mergeSlots]
        exact Nat.max_le.mpr ⟨before, within 1⟩
      · exact before

/-- There are no more locals for handlers than at any point of the block. -/
theorem length_exceptionLocals_le
    {bound : Nat}
    (within : ∀ offset,
      (block.stateAt context.method (notes.inputState.getD .empty) offset).locals.length ≤
        bound) :
    (block.interpret context notes).exceptionLocals.length ≤ bound := by
  refine length_exceptionLocals_foldl_typeStep_le _ (block.firstCount notes) ?_ within
  simp only [firstCount]
  split
  · exact within 0
  · exact Nat.zero_le bound

section Order

variable (orderly : context.hierarchy.Orderly) (leaves : block.hasExceptionEdge = true)

include orderly leaves

theorem slotsLe_exceptionLocals_foldl_typeStep
    (entries : List (Instruction × Nat))
    (count : TypeCount) :
    context.hierarchy.SlotsLe count.exceptionLocals
      (entries.foldl (block.typeStep context) count).exceptionLocals := by
  induction entries generalizing count with
  | nil => exact Hierarchy.SlotsLe.refl _
  | cons entry rest hypothesis =>
      refine orderly.slotsLe_trans ?_ (hypothesis (block.typeStep context count entry))
      simp only [typeStep, leaves, if_true]
      exact (orderly.slotsLe_mergeSlots false _ _).1

theorem locals_slotsLe_foldl_typeStep
    (entries : List (Instruction × Nat))
    (count : TypeCount)
    {offset : Nat}
    (positive : 0 < offset)
    (le : offset ≤ entries.length) :
    context.hierarchy.SlotsLe
      ((entries.take offset).foldl (block.stateAfter context.method) count.state).locals
      (entries.foldl (block.typeStep context) count).exceptionLocals := by
  induction entries generalizing count offset with
  | nil =>
      rw [List.length_nil] at le
      omega
  | cons entry rest hypothesis =>
      cases offset with
      | zero => omega
      | succ offset =>
          cases offset with
          | zero =>
              refine orderly.slotsLe_trans ?_ (slotsLe_exceptionLocals_foldl_typeStep orderly
                leaves rest (block.typeStep context count entry))
              simp only [typeStep, leaves, if_true]
              exact (orderly.slotsLe_mergeSlots false _ _).2
          | succ offset =>
              exact hypothesis (block.typeStep context count entry) (Nat.succ_pos offset)
                (Nat.le_of_succ_le_succ le)

/-- The locals for handlers are above those at all points of the block. -/
theorem locals_slotsLe_exceptionLocals
    {state : SlotState}
    (entered : notes.inputState = some state)
    {offset : Nat}
    (le : offset ≤ block.instructions.length) :
    context.hierarchy.SlotsLe (block.stateAt context.method state offset).locals
      (block.interpret context notes).exceptionLocals := by
  have state_eq : (block.firstCount notes).state = state := by simp [firstCount, entered]
  rw [exceptionLocals_interpret]
  cases offset with
  | zero =>
      have first := slotsLe_exceptionLocals_foldl_typeStep orderly leaves
        (block.instructions.zipIdx block.start) (block.firstCount notes)
      simp only [firstCount, leaves, if_true, entered, Option.getD_some] at first ⊢
      exact first
  | succ offset =>
      rw [← state_eq]
      exact locals_slotsLe_foldl_typeStep orderly leaves _ (block.firstCount notes)
        (Nat.succ_pos offset) (by simpa using le)

end Order

end Visits

end Block
end StackMaps
