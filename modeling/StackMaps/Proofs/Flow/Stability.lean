import StackMaps.Hierarchy.Table
import StackMaps.Proofs.Flow.Outcome

/-!
# The stability of the inference

Over an orderly hierarchy every successor of a reached block has taken account of
what the block passes on when the inference has ended: it is reached, and a further
merge changes nothing.
-/

namespace StackMaps

namespace FlowGraph

/-- Notes on the blocks of a graph that no visit would change. -/
structure Stable
    (graph : FlowGraph)
    (context : TypingContext)
    (locals : List Slot)
    (notesOn : Nat → Notes) : Prop where
  /-- The locals at the entry add nothing to those of the first block. -/
  entry : ∀ block, graph.blocks[0]? = some block →
    ∃ input, (notesOn 0).inputState = some input ∧
      context.hierarchy.SlotsLe locals input.locals
  /-- The successors of a reached block are reached, and a merge with what they receive
  from it changes nothing, widened or not. -/
  merged : ∀ index block edge target,
    graph.blocks[index]? = some block →
    (target, edge) ∈ block.successors →
    (notesOn index).inputState.isSome →
    ∃ targetBlock, graph.blocks[target]? = some targetBlock ∧
      (notesOn target).inputState.isSome ∧
      ∀ widen, targetBlock.merge context.hierarchy widen edge.isException
        (edge.carried context (block.interpret context (notesOn index))) (notesOn target) =
          notesOn target
  /-- The locals at all points of a reached block add nothing to those of a handler. -/
  thrown : ∀ index block types target state,
    graph.blocks[index]? = some block →
    (target, .exception types) ∈ block.successors →
    (notesOn index).inputState = some state →
    ∃ handler, (notesOn target).inputState = some handler ∧
      ∀ offset ≤ block.instructions.length,
        context.hierarchy.SlotsLe (block.stateAt context.method state offset).locals
          handler.locals

end FlowGraph

namespace TypeAnalysis

variable {context : TypingContext} {graph : FlowGraph}

/-- The locals at the entry of the body add nothing to those of the first block. -/
def Entered (hierarchy : Hierarchy) (locals : List Slot) (index : Nat) (notes : Notes) : Prop :=
  index = 0 → ∃ input, notes.inputState = some input ∧ hierarchy.SlotsLe locals input.locals

section Stability

variable (orderly : context.hierarchy.Orderly)

include orderly

theorem lawful_entered (graph : FlowGraph) (locals : List Slot) :
    (typeAnalysis context).Lawful graph (Entered context.hierarchy locals) := by
  refine lawful (fun _ _ _ _ _ entered => entered) ?_
  intro index block edge target targetBlock notes known _ _ _ entered first
  obtain ⟨input, input_eq, le⟩ := entered first
  simp only [typeAnalysis]
  by_cases plain : targetBlock.handlers = []
  · rw [Block.merge_of_handlers_eq_nil plain]
    exact ⟨_, rfl,
      orderly.slotsLe_trans le ((Block.slotsLe_mergedLocals orderly).2 input input_eq)⟩
  · rw [Block.merge_of_handlers_ne_nil plain]
    exact ⟨_, rfl,
      orderly.slotsLe_trans le ((Block.slotsLe_mergedLocals orderly).2 input input_eq)⟩

/-- A successor has taken account of a state when it has taken account of what is passed
on from there. -/
def settlement (graph : FlowGraph) (Valid : Nat → Notes → Prop) :
    (typeAnalysis context).Settlement graph Valid where
  Absorbs block state edge targetBlock known :=
    targetBlock.Takes context.hierarchy edge.isException
      (edge.carried context (block.interpret context (.ofState state))) known
  Done _ _ := True
  absorbs_receive _ _ edge _ _ _ _ _ _ entered _ _ := by
    rw [← Block.carried_interpret entered edge]
    exact Block.takes_merge orderly
  absorbs_receive_other _ _ _ _ _ _ _ _ _ _ _ _ _ _ takes := takes.merge orderly
  absorbs_transfer _ _ _ _ _ takes := takes
  done_receive _ _ _ _ _ _ := trivial

/-- The notes at the end of the inference are stable. -/
theorem stable_of_drained
    (closed : graph.Closed)
    (filled : 0 < graph.blocks.size)
    (locals : List Slot)
    (drained : (graph.inferRun context locals).worklist.toList = []) :
    graph.Stable context locals (graph.inferRun context locals).notesOn := by
  have reaches : Progress.Reaches ((typeAnalysis context).visit graph)
      (graph.opening (Notes.enterState locals)) (graph.inferRun context locals) :=
    Progress.reaches_run _ _
  have sound : (typeAnalysis context).Sound graph (Entered context.hierarchy locals)
      (graph.opening (Notes.enterState locals)) :=
    Analysis.Sound.opening filled rfl (fun _ => ⟨_, rfl, Hierarchy.SlotsLe.refl _⟩)
      fun index later first => absurd first (by omega)
  have lawful := lawful_entered orderly graph locals
  have start : (settlement orderly graph (Entered context.hierarchy locals)).Settled
      (graph.opening (Notes.enterState locals)) :=
    Analysis.Settlement.Settled.opening filled rfl
  have settled := start.reaches closed lawful sound (fun _ _ _ _ _ _ _ => trivial) reaches
  have takes : ∀ index block edge target targetBlock state,
      graph.Crosses index block edge target targetBlock →
      ((graph.inferRun context locals).notesOn index).inputState = some state →
      targetBlock.Takes context.hierarchy edge.isException
        (edge.carried context
          (block.interpret context ((graph.inferRun context locals).notesOn index)))
        ((graph.inferRun context locals).notesOn target) := by
    intro index block edge target targetBlock state crosses entered
    rw [Block.carried_interpret entered edge]
    exact (settled index block state crosses.source_eq (by simp [drained]) entered).2 edge target
      targetBlock crosses
  refine ⟨?_, ?_, ?_⟩
  · intro block _
    exact (sound.reaches closed lawful reaches).valid 0 filled rfl
  · intro index block edge target found present entered
    obtain ⟨targetBlock, crosses⟩ := closed.exists_crosses found present
    obtain ⟨state, state_eq⟩ := Option.isSome_iff_exists.mp entered
    have taken := takes index block edge target targetBlock state crosses state_eq
    have ⟨input, input_eq, _⟩ := taken
    exact ⟨targetBlock, crosses.target_eq, by simp [input_eq], fun widen => taken.merge_eq_self⟩
  · intro index block types target state found present entered
    obtain ⟨targetBlock, crosses⟩ := closed.exists_crosses found present
    obtain ⟨input, input_eq, locals_le, _⟩ :=
      takes index block (.exception types) target targetBlock state crosses entered
    have leaves : block.hasExceptionEdge = true :=
      List.any_eq_true.mpr ⟨_, present, rfl⟩
    refine ⟨input, input_eq, fun offset le => ?_⟩
    exact orderly.slotsLe_trans
      (Block.locals_slotsLe_exceptionLocals orderly leaves entered le) locals_le

end Stability

end TypeAnalysis

namespace Session

variable (body : Body) (threshold : Nat) (hierarchy : Hierarchy) (thisClass : BinaryName)
variable (startLocals : List Slot)

/-- The inference ends with no block waiting. If the root class has no supertypes and
the interfaces of arrays have none but the root class, the notes at its end are
stable, whatever else the hierarchy looks like. -/
theorem stable_computeFrames
    (classes : List BinaryName)
    (lookup : BinaryName → Option ClassRecord)
    (mem_classes : ∀ name record, lookup name = some record → name ∈ classes)
    (grounded : Hierarchy.Grounded lookup) :
    (FlowGraph.ofBody body).Stable
        (body.typingContext (.ofLookup classes lookup mem_classes) threshold thisClass)
        (FlowGraph.entryLocals body.instructions startLocals)
        (((ofBody body).withThreshold threshold).notesAfter
          (.ofLookup classes lookup mem_classes) thisClass startLocals) ∧
      (body.instructions ≠ [] → ∃ finished,
        Progress.Reaches
          ((FlowGraph.ofBody body).visitTypes
            (body.typingContext (.ofLookup classes lookup mem_classes) threshold thisClass))
          ((FlowGraph.ofBody body).opening
            (Notes.enterState (FlowGraph.entryLocals body.instructions startLocals)))
          finished ∧
        finished.worklist.toList = [] ∧
        (((ofBody body).withThreshold threshold).computeFrames
          (.ofLookup classes lookup mem_classes) thisClass startLocals).2.notes =
            finished.notes) := by
  by_cases empty : body.instructions = []
  · have blocks_eq : (FlowGraph.ofBody body).blocks = #[] :=
      Array.isEmpty_iff.mp (FlowGraph.isEmpty_blocks empty)
    refine ⟨⟨?_, ?_, ?_⟩, fun filled => absurd empty filled⟩
    · intro block found
      simp [blocks_eq] at found
    · intro index block _ _ found
      simp [blocks_eq] at found
    · intro index block _ _ _ found
      simp [blocks_eq] at found
  · have drained := FlowGraph.drains_inferRun (.ofLookup classes lookup mem_classes) threshold
      thisClass startLocals empty
    have orderly : (body.typingContext (.ofLookup classes lookup mem_classes) threshold
        thisClass).hierarchy.Orderly := grounded.orderly
    have stable := TypeAnalysis.stable_of_drained orderly (FlowGraph.closed_ofBody body)
      (FlowGraph.size_blocks_pos empty) (FlowGraph.entryLocals body.instructions startLocals)
      drained
    rw [notesAfter_eq threshold (.ofLookup classes lookup mem_classes) thisClass startLocals empty,
      notes_computeFrames threshold (.ofLookup classes lookup mem_classes) thisClass startLocals
        empty]
    exact ⟨stable, fun _ => ⟨_, Progress.reaches_run _ _, drained, rfl⟩⟩

/-- Two classes that are each other's superclass. -/
def cyclicTable : ClassTable :=
  ⟨[(.throwable, ⟨some .string, [], false⟩), (.string, ⟨some .throwable, [.cloneable], false⟩),
    (.cloneable, ⟨some .object, [], true⟩)]⟩

/-- A loop that stores its receiver and, in the handler, the exception. -/
def catchingLoop : Body :=
  .ofInstructions
    [.mark ⟨0⟩, .simple .aload0, .simple .astore1, .mark ⟨1⟩, .branch .goto ⟨0⟩, .mark ⟨2⟩,
      .simple .astore1, .branch .goto ⟨0⟩]
    [⟨⟨0⟩, ⟨1⟩, ⟨2⟩, some .throwable⟩, ⟨⟨0⟩, ⟨1⟩, ⟨2⟩, some .string⟩] ⟨3⟩

/-- The inference of the loop is stable over the cycle, widened from the first visit
on. -/
theorem stable_computeFrames_catchingLoop :
    Hierarchy.Grounded cyclicTable.lookup ∧
      (FlowGraph.ofBody catchingLoop).Stable
        (catchingLoop.typingContext cyclicTable.hierarchy 1 .string)
        (FlowGraph.entryLocals catchingLoop.instructions [some (.object (.object .string))])
        (((ofBody catchingLoop).withThreshold 1).notesAfter cyclicTable.hierarchy .string
          [some (.object (.object .string))]) := by
  have grounded : Hierarchy.Grounded cyclicTable.lookup := ⟨by decide, by decide, by decide⟩
  have stable := stable_computeFrames catchingLoop 1 .string [some (.object (.object .string))]
    (cyclicTable.entries.map fun entry => entry.1) cyclicTable.lookup cyclicTable.mem_of_lookup
    grounded
  exact ⟨grounded, stable.1⟩

end Session

end StackMaps
