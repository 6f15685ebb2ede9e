import StackMaps.Flow.Session
import StackMaps.Proofs.Flow.Control
import StackMaps.Proofs.Flow.Inference
import StackMaps.Proofs.Flow.Replay

/-!
# The outcome of the inference

What the inference of a body returns is read off the last moment of its run, at
which no block waits any more.
-/

namespace StackMaps

namespace FlowGraph

/-- The last moment of the inference. -/
def inferRun (graph : FlowGraph) (context : TypingContext) (locals : List Slot) : Progress :=
  Progress.run (graph.visitTypes context) (graph.typingFuel context locals.length)
    (graph.opening (Notes.enterState locals))

/-- The frames of a body from the last moment of the inference. -/
def inferredFraming (body : Body) (context : TypingContext) (locals : List Slot) : Framing :=
  (ofBody body).framing body locals ((ofBody body).inferRun context locals).notes

end FlowGraph

namespace Body

/-- What the types in a body depend on. -/
def typingContext
    (body : Body)
    (hierarchy : Hierarchy)
    (threshold : Nat)
    (thisClass : BinaryName) : TypingContext :=
  { hierarchy
    method := { thisClass, instructions := body.instructions.toArray }
    threshold
    stackLimit := 2 * body.instructions.length }

end Body

namespace FlowGraph

/-- As many locals exist at the entry as the body needs. -/
theorem length_entryLocals (instructions : List Instruction) (startLocals : List Slot) :
    (entryLocals instructions startLocals).length =
      localsNeeded instructions startLocals.length := by
  have least := (localsNeeded_le_iff.mp
    (Nat.le_refl (localsNeeded instructions startLocals.length))).1
  simp only [entryLocals, List.length_append, List.length_replicate]
  omega

section Limits

variable {graph : FlowGraph} {body : Body} {locals : List Slot} {notes : Array Notes}
variable {bound : Nat}

theorem maxStack_framing_le_iff :
    (graph.framing body locals notes).maxStack ≤ bound ↔
      ∀ entry ∈ notes.toList, entry.maxDepth ≤ bound := by
  simp only [framing, ← Array.foldl_toList]
  have covered :
      notes.toList.foldl (fun greatest entry => max greatest entry.maxDepth) 0 ≤ bound ↔
        0 ≤ bound ∧ ∀ entry ∈ notes.toList, entry.maxDepth ≤ bound := by
    refine Greatest.foldl_le_iff id fun greatest entry => ?_
    exact Nat.max_le
  exact covered.trans (and_iff_right (Nat.zero_le bound))

theorem maxLocals_framing_le_iff :
    (graph.framing body locals notes).maxLocals ≤ bound ↔
      locals.length ≤ bound ∧ ∀ entry ∈ notes.toList, ∀ state,
        entry.inputState = some state → state.locals.length ≤ bound := by
  simp only [framing, ← Array.foldl_toList]
  refine Greatest.foldl_le_iff id fun greatest entry => ?_
  cases entered : entry.inputState with
  | none => simp
  | some state => simp

end Limits

variable {body : Body} (hierarchy : Hierarchy) (threshold : Nat) (thisClass : BinaryName)
variable (startLocals : List Slot)

/-- The frames and the notes are read off the last moment of the inference. -/
theorem computeFrames_eq
    (filled : body.instructions ≠ [])
    {notes : Array Notes}
    (size_eq : notes.size = (ofBody body).blocks.size) :
    (ofBody body).computeFrames body hierarchy threshold thisClass startLocals
        (notes.map Notes.wipe) =
      ((ofBody body).framing body (entryLocals body.instructions startLocals)
          ((ofBody body).inferRun (body.typingContext hierarchy threshold thisClass)
            (entryLocals body.instructions startLocals)).notes,
        ((ofBody body).inferRun (body.typingContext hierarchy threshold thisClass)
          (entryLocals body.instructions startLocals)).notes) := by
  have nonempty : ¬(ofBody body).blocks.isEmpty = true := by
    have := size_blocks_pos filled
    simp only [Array.isEmpty_iff_size_eq_zero]
    omega
  rw [map_wipe, size_eq]
  exact if_neg nonempty

theorem stackLimit_pos (filled : body.instructions ≠ []) :
    1 ≤ (body.typingContext hierarchy threshold thisClass).stackLimit := by
  have := List.length_pos_iff.mpr filled
  simp only [Body.typingContext]
  omega

theorem localsNeeded_le_length_entryLocals
    {index : Nat}
    {block : Block}
    (found : (ofBody body).blocks[index]? = some block)
    {instruction : Instruction}
    (present : instruction ∈ block.instructions) :
    instruction.localsNeeded ≤ (entryLocals body.instructions startLocals).length := by
  rw [length_entryLocals]
  exact (localsNeeded_le_iff.mp (Nat.le_refl _)).2 instruction (mem_instructions found present)

/-- The inference of a body ends with nobody waiting. -/
theorem drains_inferRun (filled : body.instructions ≠ []) :
    ((ofBody body).inferRun (body.typingContext hierarchy threshold thisClass)
      (entryLocals body.instructions startLocals)).worklist.toList = [] :=
  TypeAnalysis.drains (stackLimit_pos hierarchy threshold thisClass filled)
    (fun _ _ found _ present => localsNeeded_le_length_entryLocals startLocals found present)
    (closed_ofBody body) (size_blocks_pos filled) rfl

end FlowGraph

namespace Session

/-- The notes on a block after the inference. -/
def notesAfter
    (session : Session)
    (hierarchy : Hierarchy)
    (thisClass : BinaryName)
    (startLocals : List Slot)
    (index : Nat) : Notes :=
  (session.computeFrames hierarchy thisClass startLocals).2.notes.getD index .blank

variable {body : Body} (threshold : Nat) (hierarchy : Hierarchy) (thisClass : BinaryName)
variable (startLocals : List Slot)

theorem notes_computeFrames (filled : body.instructions ≠ []) :
    (((ofBody body).withThreshold threshold).computeFrames hierarchy thisClass
        startLocals).2.notes =
      ((FlowGraph.ofBody body).inferRun (body.typingContext hierarchy threshold thisClass)
        (FlowGraph.entryLocals body.instructions startLocals)).notes := by
  have outcome := FlowGraph.computeFrames_eq hierarchy threshold thisClass startLocals filled
    (size_notes_ofBody body)
  exact congrArg Prod.snd outcome

theorem framing_computeFrames (filled : body.instructions ≠ []) :
    (((ofBody body).withThreshold threshold).computeFrames hierarchy thisClass startLocals).1 =
      FlowGraph.inferredFraming body (body.typingContext hierarchy threshold thisClass)
        (FlowGraph.entryLocals body.instructions startLocals) := by
  have outcome := FlowGraph.computeFrames_eq hierarchy threshold thisClass startLocals filled
    (size_notes_ofBody body)
  exact congrArg Prod.fst outcome

/-- The notes after the inference are those of its last moment. -/
theorem notesAfter_eq (filled : body.instructions ≠ []) :
    ((ofBody body).withThreshold threshold).notesAfter hierarchy thisClass startLocals =
      ((FlowGraph.ofBody body).inferRun (body.typingContext hierarchy threshold thisClass)
        (FlowGraph.entryLocals body.instructions startLocals)).notesOn := by
  funext index
  rw [notesAfter, notes_computeFrames threshold hierarchy thisClass startLocals filled]
  rfl

/-- What is returned for a body without instructions. -/
def emptyFraming (body : Body) (startLocals : List Slot) : Framing :=
  { injections := []
    frames := []
    maxLocals := startLocals.length
    maxStack := 0
    nextLabel := body.nextLabel }

/-- Without instructions there are no frames, and the locals are those at the start. -/
theorem computeFrames_of_empty (empty : body.instructions = []) :
    ((ofBody body).withThreshold threshold).computeFrames hierarchy thisClass startLocals =
      (emptyFraming body startLocals, (ofBody body).withThreshold threshold) := by
  have locals_eq : (FlowGraph.entryLocals body.instructions startLocals).length =
      startLocals.length := by
    rw [FlowGraph.length_entryLocals, empty]
    rfl
  have outcome : (FlowGraph.ofBody body).computeFrames body hierarchy threshold thisClass
      startLocals ((ofBody body).notes.map Notes.wipe) =
        (emptyFraming body startLocals, (ofBody body).notes) := by
    rw [map_wipe_notes_ofBody, emptyFraming, ← locals_eq]
    exact if_pos (FlowGraph.isEmpty_blocks empty)
  have framing_eq : (((ofBody body).withThreshold threshold).computeFrames hierarchy thisClass
      startLocals).1 = emptyFraming body startLocals := congrArg Prod.fst outcome
  have session_eq : (((ofBody body).withThreshold threshold).computeFrames hierarchy thisClass
      startLocals).2 = (ofBody body).withThreshold threshold :=
    congrArg (fun result => { (ofBody body).withThreshold threshold with notes := result.2 })
      outcome
  exact Prod.ext framing_eq session_eq

/-- Without instructions nothing is noted. -/
theorem notesAfter_of_empty (empty : body.instructions = []) (index : Nat) :
    ((ofBody body).withThreshold threshold).notesAfter hierarchy thisClass startLocals index =
      .blank := by
  rw [notesAfter, computeFrames_of_empty threshold hierarchy thisClass startLocals empty]
  simp only [ofBody, withThreshold, Array.getD_eq_getD_getElem?, Array.getElem?_replicate]
  split <;> rfl

end Session

end StackMaps
