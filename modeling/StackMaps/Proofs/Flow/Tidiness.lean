import StackMaps.Proofs.Flow.Control
import StackMaps.Proofs.Flow.Origins
import StackMaps.Proofs.Slots.Backing

/-!
# Tidy inferences

In a tidy inference no slot is ever unknown, and all lists that are merged have the same
length. Then the entry of a block is always backed by what has passed to it along every
edge, and by what it was before.
-/

namespace StackMaps

/-- The slots with which control enters a successor along an edge, if it leaves a block with
the given ones. -/
def Edge.follow (edge : Edge) (context : TypingContext) (state : SlotState) : SlotState :=
  match edge with
  | .normal => { state with stack := state.stack.drop (state.stack.depth - context.stackLimit) }
  | .exception types =>
      { state with stack := .ofList [context.hierarchy.caughtType types] }

/-- Control can leave a block along an edge in front of the instruction at the offset.
Exceptions can do so everywhere. -/
structure Block.LeavesAt (block : Block) (edge : Edge) (offset : Nat) : Prop where
  le : offset ≤ block.instructions.length
  atStop : edge.isException = false → offset = block.instructions.length

namespace Block

/-- All slots of an entry and of what is merged into it are known, and there are equally
many of them. With a handler this matters for the locals only. -/
structure Fits (block : Block) (incoming : SlotState) (notes : Notes) : Prop where
  knownLocals : ∀ slot ∈ incoming.locals, slot ≠ none
  knownStack : block.handlers = [] → ∀ slot ∈ incoming.stack.slots, slot ≠ none
  knownEntry : ∀ before, notes.inputState = some before → before.All (· ≠ none)
  length_eq : ∀ before, notes.inputState = some before →
    incoming.locals.length = before.locals.length
  depth_eq : ∀ before, notes.inputState = some before → block.handlers = [] →
    incoming.stack.depth = before.stack.depth

variable {block : Block} {notes : Notes} {incoming : SlotState}
variable (hierarchy : Hierarchy) (widen fromException : Bool)

theorem Fits.backed_mergedLocals (fits : block.Fits incoming notes) :
    Backed (mergedLocals hierarchy widen incoming notes) incoming.locals ∧
      ∀ before, notes.inputState = some before →
        Backed (mergedLocals hierarchy widen incoming notes) before.locals := by
  unfold mergedLocals
  cases entered : notes.inputState with
  | none => exact ⟨Backed.refl _, fun _ absent => by cases absent⟩
  | some before =>
      have known := (fits.knownEntry before entered).locals
      have length_eq := fits.length_eq before entered
      refine ⟨backed_mergeSlots_incoming known fits.knownLocals length_eq, ?_⟩
      rintro _ ⟨⟩
      exact backed_mergeSlots_existing known (Nat.le_of_eq length_eq)

theorem Fits.backed_mergedStack
    (fits : block.Fits incoming notes)
    (plain : block.handlers = []) :
    Backed (mergedStack hierarchy widen incoming notes).slots.reverse
        incoming.stack.slots.reverse ∧
      ∀ before, notes.inputState = some before →
        Backed (mergedStack hierarchy widen incoming notes).slots.reverse
          before.stack.slots.reverse := by
  unfold mergedStack
  cases entered : notes.inputState with
  | none => exact ⟨Backed.refl _, fun _ absent => by cases absent⟩
  | some before =>
      have known : ∀ slot ∈ before.stack.slots.reverse, slot ≠ none := fun slot held =>
        (fits.knownEntry before entered).stack slot (List.mem_reverse.mp held)
      have knownToo : ∀ slot ∈ incoming.stack.slots.reverse, slot ≠ none := fun slot held =>
        fits.knownStack plain slot (List.mem_reverse.mp held)
      have length_eq : incoming.stack.slots.reverse.length = before.stack.slots.reverse.length := by
        simpa [Stack.depth_eq] using fits.depth_eq before entered plain
      simp only [Hierarchy.slots_mergeStack]
      refine ⟨backed_mergeSlots_incoming known knownToo length_eq, ?_⟩
      rintro _ ⟨⟩
      exact backed_mergeSlots_existing known (Nat.le_of_eq length_eq)

/-- After a merge the entry is backed by what has been merged into it and by what it was
before. -/
theorem Fits.backedBy_merge
    (fits : block.Fits incoming notes)
    (caught : ∀ origin, (block.merge hierarchy widen fromException incoming notes).caught ≠
      some (.uninitialized origin)) :
    ∃ input, (block.merge hierarchy widen fromException incoming notes).inputState = some input ∧
      input.BackedBy incoming ∧
      ∀ before, notes.inputState = some before → input.BackedBy before := by
  obtain ⟨locals, localsBefore⟩ := fits.backed_mergedLocals hierarchy widen
  by_cases plain : block.handlers = []
  · obtain ⟨stack, stackBefore⟩ := fits.backed_mergedStack hierarchy widen plain
    rw [merge_of_handlers_eq_nil plain]
    exact ⟨_, rfl, ⟨locals, stack⟩,
      fun before entered => ⟨localsBefore before entered, stackBefore before entered⟩⟩
  · rw [merge_of_handlers_ne_nil plain] at caught ⊢
    have stack : ∀ others : List Slot,
        Backed [mergedCaught hierarchy widen fromException incoming notes] others :=
      backed_of_forall_ne (List.forall_mem_singleton.mpr caught)
    exact ⟨_, rfl, ⟨locals, stack _⟩,
      fun before entered => ⟨localsBefore before entered, stack _⟩⟩

end Block

namespace FlowGraph

/-- In an inference no slot is ever unknown, and all merges combine lists of the same
lengths. -/
structure Tidy (graph : FlowGraph) (context : TypingContext) (locals : List Slot) : Prop where
  /-- The slots at every entry are known at all moments. -/
  known : ∀ progress,
    (typeAnalysis context).Moment graph (graph.opening (Notes.enterState locals)) progress →
    ∀ index state, (progress.notesOn index).inputState = some state → state.All (· ≠ none)
  /-- So are those between two instructions of every visit. -/
  knownAt : ∀ index block notes pending progress,
    (typeAnalysis context).Visiting graph (graph.opening (Notes.enterState locals)) index block
      notes pending progress →
    ∀ offset ≤ block.instructions.length,
      (block.stateAt context.method (notes.inputState.getD .empty) offset).All (· ≠ none)
  /-- The locals that a visit joins for handlers are equally many. -/
  thrown : ∀ index block notes pending progress,
    (typeAnalysis context).Visiting graph (graph.opening (Notes.enterState locals)) index block
      notes pending progress →
    block.hasExceptionEdge = true →
    ∀ offset < block.instructions.length,
      (block.countAt context notes offset).exceptionLocals.length =
        (block.stateAt context.method (notes.inputState.getD .empty) (offset + 1)).locals.length
  /-- What a reached block receives has as many locals as its entry and, unless a handler
  begins there, a stack of the same depth. -/
  received : ∀ index block notes target edge pending progress targetBlock input,
    (typeAnalysis context).Visiting graph (graph.opening (Notes.enterState locals)) index block
      notes ((target, edge) :: pending) progress →
    graph.blocks[target]? = some targetBlock →
    (progress.notesOn target).inputState = some input →
    (edge.carried context (block.interpret context notes)).locals.length = input.locals.length ∧
      (targetBlock.handlers = [] →
        (edge.carried context (block.interpret context notes)).stack.depth = input.stack.depth)

namespace Tidy

variable {body : Body} {context : TypingContext} {locals : List Slot}
variable {index target : Nat} {block targetBlock : Block} {edge : Edge} {notes : Notes}
variable {pending : List (Nat × Edge)} {progress : Progress}
variable (tidy : (ofBody body).Tidy context locals)

include tidy

/-- The locals for handlers are backed by those at all points of the block so far. -/
theorem backed_exceptionLocals
    (visiting : (typeAnalysis context).Visiting (ofBody body)
      ((ofBody body).opening (Notes.enterState locals)) index block notes pending progress)
    (leaves : block.hasExceptionEdge = true)
    {stop : Nat}
    (within : stop ≤ block.instructions.length) :
    (∀ slot ∈ (block.countAt context notes stop).exceptionLocals, slot ≠ none) ∧
      ∀ offset ≤ stop, Backed (block.countAt context notes stop).exceptionLocals
        (block.stateAt context.method (notes.inputState.getD .empty) offset).locals := by
  have known := tidy.knownAt _ _ _ _ _ visiting
  induction stop with
  | zero =>
      rw [Block.exceptionLocals_countAt_zero leaves]
      refine ⟨(known 0 (Nat.zero_le _)).locals, fun offset le => ?_⟩
      obtain rfl := Nat.le_zero.mp le
      exact Backed.refl _
  | succ stop hypothesis =>
      obtain ⟨knownBefore, backed⟩ := hypothesis (Nat.le_of_succ_le within)
      have length_eq := tidy.thrown _ _ _ _ _ visiting leaves stop within
      rw [Block.exceptionLocals_countAt_succ leaves within]
      refine ⟨Hierarchy.holds_of_mem_mergeSlots (Hierarchy.merges_known _) knownBefore
        (known (stop + 1) within).locals, fun offset le => ?_⟩
      rcases Nat.le_succ_iff.mp le with earlier | rfl
      · exact (backed_mergeSlots_existing knownBefore (Nat.le_of_eq length_eq.symm)).trans
          (backed offset earlier)
      · exact backed_mergeSlots_incoming knownBefore (known _ within).locals length_eq.symm

/-- The locals that a visit passes on along an edge are known. What it passes on is backed
by what control takes along from everywhere. -/
theorem backedBy_carried
    (visiting : (typeAnalysis context).Visiting (ofBody body)
      ((ofBody body).opening (Notes.enterState locals)) index block notes pending progress)
    (present : (target, edge) ∈ block.successors) :
    (∀ slot ∈ (edge.carried context (block.interpret context notes)).locals, slot ≠ none) ∧
      ∀ offset, block.LeavesAt edge offset →
        (edge.carried context (block.interpret context notes)).BackedBy
          (edge.follow context
            (block.stateAt context.method (notes.inputState.getD .empty) offset)) := by
  cases edge with
  | normal =>
      simp only [Edge.carried, Block.outputState_interpret]
      refine ⟨(tidy.knownAt _ _ _ _ _ visiting _ (Nat.le_refl _)).locals, fun offset leaves => ?_⟩
      rw [leaves.atStop rfl]
      exact SlotState.BackedBy.refl _
  | exception types =>
      have leavesBlock : block.hasExceptionEdge = true := List.any_eq_true.mpr ⟨_, present, rfl⟩
      obtain ⟨known, backed⟩ := tidy.backed_exceptionLocals visiting leavesBlock (Nat.le_refl _)
      simp only [Edge.carried, Block.interpret_eq_countAt]
      exact ⟨known, fun offset leaves => ⟨backed offset leaves.le, Backed.refl _⟩⟩

/-- What a successor receives fits its entry. -/
theorem fits
    (visiting : (typeAnalysis context).Visiting (ofBody body)
      ((ofBody body).opening (Notes.enterState locals)) index block notes
      ((target, edge) :: pending) progress)
    (crosses : (ofBody body).Crosses index block edge target targetBlock) :
    targetBlock.Fits (edge.carried context (block.interpret context notes))
      (progress.notesOn target) where
  knownLocals := (tidy.backedBy_carried visiting crosses.mem_successors).1
  knownStack plain := by
    cases edge with
    | normal =>
        simp only [Edge.carried, Block.outputState_interpret]
        exact fun slot held => (tidy.knownAt _ _ _ _ _ visiting _ (Nat.le_refl _)).stack slot
          (List.mem_of_mem_drop held)
    | exception types => exact absurd plain crosses.handlers_ne_nil
  knownEntry := tidy.known progress (Or.inr ⟨_, _, _, _, visiting⟩) target
  length_eq before entered :=
    (tidy.received _ _ _ _ _ _ _ _ before visiting crosses.target_eq entered).1
  depth_eq before entered :=
    (tidy.received _ _ _ _ _ _ _ _ before visiting crosses.target_eq entered).2

/-- The entry of a successor is backed by what it has received and by what it was before. -/
theorem backedBy_receive
    (visiting : (typeAnalysis context).Visiting (ofBody body)
      ((ofBody body).opening (Notes.enterState locals)) index block notes
      ((target, edge) :: pending) progress)
    (crosses : (ofBody body).Crosses index block edge target targetBlock) :
    ∃ input,
      ((typeAnalysis context).receive targetBlock edge (block.interpret context notes)
        (progress.notesOn target)).inputState = some input ∧
      input.BackedBy (edge.carried context (block.interpret context notes)) ∧
      ∀ before, (progress.notesOn target).inputState = some before → input.BackedBy before := by
  refine (tidy.fits visiting crosses).backedBy_merge _ _ _ fun origin => ?_
  exact TypeAnalysis.holds_caught_receive (lenient_ne origin)
    (TypeAnalysis.holds_caught (lenient_ne origin) (closed_ofBody body)
      (Or.inr ⟨_, _, _, _, visiting⟩) target)

end Tidy

end FlowGraph

end StackMaps
