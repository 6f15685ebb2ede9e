import StackMaps.Proofs.Flow.DepthAgreement
import StackMaps.Proofs.Flow.Emission
import StackMaps.Proofs.Flow.Labelling
import StackMaps.Proofs.Frame.Decoding

/-!
# Decoding the frames of a body

The descriptions that are written for a body decode, one after the other from the
locals at the start, to the states at the entries of the blocks that emit a frame.
The labels in them stand for the positions of the allocations and of the frames.
-/

namespace StackMaps

/-- A jump, a switch or a placed range leads to the position. -/
def Body.IsTarget (body : Body) (position : Nat) : Prop :=
  (∃ instruction ∈ body.instructions, ∃ label ∈ instruction.jumpTargets,
      body.positionOf? label = some position) ∨
    ∃ range start stop, body.Places range start stop position

/-- The frames of a body convey the entries of the blocks that emit one, given in
`emitting`. -/
structure Framing.Conveys
    (framing : Framing)
    (body : Body)
    (locals : List Slot)
    (notes : Nat → Notes)
    (plan : LabelPlan)
    (emitting : List Nat) : Prop where
  /-- The blocks are in the order of the body. -/
  ascending : emitting.Pairwise (· < ·)
  mem_iff : ∀ index, index ∈ emitting ↔ (FlowGraph.ofBody body).Emits notes index
  /-- The frame of a block is at its first real instruction. -/
  labels_eq : framing.frames.map (·.1) =
    emitting.map fun index => plan.label ((FlowGraph.ofBody body).siteOn notes index).position
  /-- From the locals at the start on, the frames decode to the entries. -/
  decoded_eq : StackMapFrame.decodeAll (plan.frame ⟨locals, .empty⟩) (framing.frames.map (·.2)) =
    emitting.map fun index => plan.frame ((notes index).inputState.getD .empty)
  /-- Every description is well-formed and decodes to the entry of its block, and it is
  full only if no other form does. -/
  compact : ∀ (place : Nat) entry, framing.frames[place]? = some entry →
    ∃ before index,
      (plan.frame ⟨locals, .empty⟩ ::
        StackMapFrame.decodeAll (plan.frame ⟨locals, .empty⟩)
          (framing.frames.map (·.2)))[place]? = some before ∧
      emitting[place]? = some index ∧
      entry.2.Describes before (plan.frame ((notes index).inputState.getD .empty)) ∧
      (entry.2.IsFull → ∀ form : BodyFrame,
        form.Describes before (plan.frame ((notes index).inputState.getD .empty)) → form.IsFull)
  /-- The labels stand for the positions of the allocations and of the frames. -/
  standsFor : ∀ index ∈ emitting, ∀ position,
    position ∈ origins locals ++ ((FlowGraph.ofBody body).siteOn notes index).demands →
    body.StandsFor framing.injections (plan.label position) position
  /-- A reached target has a frame at the first real instruction behind it. -/
  atTargets : ∀ target index distance instruction,
    body.IsTarget target →
    (FlowGraph.ofBody body).blockContaining? target = some index →
    (notes index).inputState.isSome →
    body.instructions[target + distance]? = some instruction →
    instruction.isMark = false →
    (∀ (offset : Nat) (mark : Instruction), offset < distance →
      body.instructions[target + offset]? = some mark → mark.isMark = true) →
    ∃ entry ∈ framing.frames, entry.1 = plan.label (target + distance) ∧
      body.StandsFor framing.injections entry.1 (target + distance)

namespace FlowGraph

/-- The labels for the frames of a body. -/
def labelPlan
    (graph : FlowGraph)
    (body : Body)
    (locals : List Slot)
    (notes : Array Notes) : LabelPlan :=
  (origins locals ++ (graph.frameSites notes).flatMap FrameSite.demands).foldl LabelPlan.demand
    (.ofBody body)

variable {graph : FlowGraph} {body : Body} {locals : List Slot} {notes : Array Notes}

/-- Going through labelled frames leaves the labels alone and describes each frame given
the one before it. -/
theorem map_zipWith_compact
    (frames : List (Label × Frame RefType Label))
    (before : Frame RefType Label) :
    let written := List.zipWith (fun frame previous => (frame.1, frame.2.compact previous)) frames
      (before :: frames.map (·.2))
    written.map (·.1) = frames.map (·.1) ∧
      written.map (·.2) = Frame.compactAll before (frames.map (·.2)) := by
  induction frames generalizing before with
  | nil => exact ⟨rfl, rfl⟩
  | cons frame rest hypothesis =>
      obtain ⟨labels, forms⟩ := hypothesis frame.2
      exact ⟨congrArg (frame.1 :: ·) labels, congrArg (frame.2.compact before :: ·) forms⟩

theorem labels_framing :
    (graph.framing body locals notes).frames.map (·.1) =
      (graph.frameSites notes).map fun site =>
        (graph.labelPlan body locals notes).label site.position := by
  refine (map_zipWith_compact _ _).1.trans ?_
  rw [List.map_map]
  rfl

theorem forms_framing :
    (graph.framing body locals notes).frames.map (·.2) =
      Frame.compactAll ((graph.labelPlan body locals notes).frame ⟨locals, .empty⟩)
        ((graph.frameSites notes).map fun site =>
          (graph.labelPlan body locals notes).frame site.state) := by
  refine (map_zipWith_compact _ _).2.trans ?_
  rw [List.map_map]
  rfl

/-- Every position of which a frame or the locals at the start speak has its label. -/
theorem standsFor_labelPlan
    {site : FrameSite}
    (present : site ∈ graph.frameSites notes)
    {position : Nat}
    (demanded : position ∈ origins locals ++ site.demands) :
    body.StandsFor (graph.labelPlan body locals notes).injections
      ((graph.labelPlan body locals notes).label position) position := by
  refine ((LabelPlan.serves_ofBody body).foldl_demand _).standsFor
    (LabelPlan.isSome_find?_foldl_demand ?_)
  rcases List.mem_append.mp demanded with atStart | inSite
  · exact List.mem_append_left _ atStart
  · exact List.mem_append_right _ (List.mem_flatMap.mpr ⟨site, present, inSite⟩)

/-- A target is the first position of a block that needs a frame. -/
theorem start_eq_of_isTarget
    {target index : Nat}
    (isTarget : body.IsTarget target)
    (noted : (ofBody body).blockContaining? target = some index) :
    ∃ block, (ofBody body).blocks[index]? = some block ∧ block.start = target ∧
      block.needsFrame = true := by
  obtain ⟨block, found, covers, covered⟩ := blockContaining?_eq_some_iff.mp noted
  have begins : block.start = target := by
    rcases isTarget with ⟨instruction, present, label, jumps, placed⟩ | ⟨range, _, _, places⟩
    · obtain ⟨position, at_position⟩ := List.getElem?_of_mem present
      exact start_eq_of_leads found covers covered
        (leads_of_mem_jumpTargets at_position jumps placed)
    · exact start_eq_of_leads found covers covered (leads_of_places places).2.2
  exact ⟨block, found, begins, (needsFrame_iff found).mpr (begins.symm ▸ isTarget)⟩

/-- What is written for the notes of an analysis conveys the entries of the blocks, if
whatever follows a reached block is reached. -/
theorem exists_conveys
    (size_eq : notes.size = (ofBody body).blocks.size)
    (spreads : ∀ index target, (ofBody body).Follows index target →
      (notes.getD index .blank).inputState.isSome →
      (notes.getD target .blank).inputState.isSome) :
    ∃ emitting, ((ofBody body).framing body locals notes).Conveys body locals
      (notes.getD · .blank) ((ofBody body).labelPlan body locals notes) emitting := by
  obtain ⟨emitting, ascending, mem_iff, sites_eq⟩ := exists_emitting (ofBody body) notes size_eq
  have labels := @labels_framing (ofBody body) body locals notes
  have forms := @forms_framing (ofBody body) body locals notes
  rw [sites_eq, List.map_map] at labels forms
  have decoded := Frame.decodeAll_compactAll
    (((ofBody body).labelPlan body locals notes).frame ⟨locals, .empty⟩)
    (emitting.map ((fun site => ((ofBody body).labelPlan body locals notes).frame site.state) ∘
      (ofBody body).siteOn (notes.getD · .blank)))
  have inSites : ∀ index ∈ emitting,
      (ofBody body).siteOn (notes.getD · .blank) index ∈ (ofBody body).frameSites notes := by
    intro index present
    rw [sites_eq]
    exact List.mem_map_of_mem present
  refine ⟨emitting, ascending, mem_iff, labels, forms ▸ decoded, ?_, ?_, ?_⟩
  · intro place entry found
    have form_eq : (((ofBody body).framing body locals notes).frames.map (·.2))[place]? =
        some entry.2 := by
      rw [List.getElem?_map, found, Option.map_some]
    rw [forms] at form_eq
    obtain ⟨before, frame, before_eq, frame_eq, chosen⟩ := Frame.getElem?_compactAll form_eq
    rw [List.getElem?_map, Option.map_eq_some_iff] at frame_eq
    obtain ⟨index, index_eq, rfl⟩ := frame_eq
    rw [forms, decoded, chosen]
    exact ⟨before, index, before_eq, index_eq, Frame.describes_compact _ before,
      fun full form describes => Frame.isFull_of_describes full describes⟩
  · intro index present position demanded
    exact standsFor_labelPlan (inSites index present) demanded
  · intro target index distance instruction isTarget noted reached here real marks
    obtain ⟨block, found, rfl, needs⟩ := start_eq_of_isTarget isTarget noted
    obtain ⟨last, emits, position_eq⟩ :=
      exists_emits_of_target spreads found reached needs here real marks
    have present := (mem_iff last).mpr emits
    have written : ((ofBody body).labelPlan body locals notes).label (block.start + distance) ∈
        ((ofBody body).framing body locals notes).frames.map (·.1) := by
      rw [labels]
      exact List.mem_map.mpr ⟨last, present, by rw [Function.comp_apply, position_eq]⟩
    obtain ⟨entry, entry_mem, entry_eq⟩ := List.mem_map.mp written
    refine ⟨entry, entry_mem, entry_eq, ?_⟩
    rw [entry_eq]
    refine standsFor_labelPlan (inSites last present) (List.mem_append_right _ ?_)
    rw [← position_eq]
    exact List.mem_append_right _ (List.mem_singleton.mpr rfl)

end FlowGraph

namespace Session

/-- The frames of a body decode to the entries of the blocks that emit one. -/
theorem conveys_computeFrames
    (body : Body)
    (threshold : Nat)
    (hierarchy : Hierarchy)
    (thisClass : BinaryName)
    (startLocals : List Slot) :
    let outcome := ((ofBody body).withThreshold threshold).computeFrames hierarchy thisClass
      startLocals
    let locals := FlowGraph.entryLocals body.instructions startLocals
    ∃ emitting, outcome.1.Conveys body locals (outcome.2.notes.getD · .blank)
      ((FlowGraph.ofBody body).labelPlan body locals outcome.2.notes) emitting := by
  dsimp only
  by_cases empty : body.instructions = []
  · rw [computeFrames_of_empty threshold hierarchy thisClass startLocals empty]
    have silent : ∀ notes index, ¬(FlowGraph.ofBody body).Emits notes index := by
      intro notes index emits
      obtain ⟨block, found, _⟩ := emits.real
      simp [Array.isEmpty_iff.mp (FlowGraph.isEmpty_blocks empty)] at found
    refine ⟨[], .nil, fun index => ?_, rfl, rfl, ?_, ?_, ?_⟩
    · simp [silent]
    · intro place entry found
      simp [emptyFraming] at found
    · intro index present
      exact absurd present List.not_mem_nil
    · intro target index distance instruction _ _ _ here
      simp [empty] at here
  · have drained := FlowGraph.drains_inferRun hierarchy threshold thisClass startLocals empty
    have reaches := FlowGraph.reaches_inferRun (FlowGraph.ofBody body)
      (body.typingContext hierarchy threshold thisClass)
      (FlowGraph.entryLocals body.instructions startLocals)
    rw [framing_computeFrames threshold hierarchy thisClass startLocals empty,
      notes_computeFrames threshold hierarchy thisClass startLocals empty]
    refine FlowGraph.exists_conveys ?_ ?_
    · rw [Analysis.size_reaches reaches]
      simp [FlowGraph.opening]
    · intro index target follows reached
      exact (FlowGraph.isSome_inputState_iff_reachable empty drained).mpr
        (((FlowGraph.isSome_inputState_iff_reachable empty drained).mp reached).tail follows)

end Session

end StackMaps
