import StackMaps.Proofs.Flow.Stability
import StackMaps.Proofs.Flow.Tracking
import StackMaps.Proofs.Flow.WovenFraming
import StackMaps.Recompute

/-!
# Recomputed bodies

What a body is after its frames have been recomputed: the labels that have been issued are
woven into it, and the frames that have been found fit it. To recompute them once more
changes nothing, as long as no stack has been cut.
-/

namespace StackMaps

theorem fit16?_eq_none_iff {number : Nat} : fit16? number = none ↔ 65535 < number := by
  unfold fit16?
  split <;> simp <;> omega

theorem fit16?_eq_some_iff {number : Nat} {value : UInt16} :
    fit16? number = some value ↔ value.toNat = number := by
  unfold fit16?
  split
  · rw [Option.some.injEq, ← UInt16.toNat_inj, UInt16.toNat_ofNat_of_lt' (by assumption), eq_comm]
  · have := value.toNat_lt
    simp
    omega

namespace Body

/-- Either the first limit does not fit, or the second one does not, or both are recorded. -/
theorem setMaxes_cases (body : Body) (stack locals : Nat) :
    (body.setMaxes stack locals = (body, some (.maxStackOverflow stack)) ∧ 65535 < stack) ∨
      (∃ maxStack : UInt16, maxStack.toNat = stack ∧
        body.setMaxes stack locals = ({ body with maxStack }, some (.maxLocalsOverflow locals)) ∧
        65535 < locals) ∨
      ∃ maxStack maxLocals : UInt16, maxStack.toNat = stack ∧ maxLocals.toNat = locals ∧
        body.setMaxes stack locals = ({ body with maxStack, maxLocals }, none) := by
  unfold setMaxes
  cases stack_eq : fit16? stack with
  | none => exact Or.inl ⟨rfl, fit16?_eq_none_iff.mp stack_eq⟩
  | some maxStack =>
      have fits := fit16?_eq_some_iff.mp stack_eq
      cases locals_eq : fit16? locals with
      | none => exact Or.inr (Or.inl ⟨maxStack, fits, rfl, fit16?_eq_none_iff.mp locals_eq⟩)
      | some maxLocals =>
          exact Or.inr (Or.inr ⟨maxStack, maxLocals, fits, fit16?_eq_some_iff.mp locals_eq, rfl⟩)

/-- The local slots at the entry of a body as that of a method. -/
def localsIn (body : Body) (thisClass : BinaryName) (method : Method) : List Slot :=
  FlowGraph.entryLocals body.instructions (method.typedStartLocals thisClass)

/-- The notes of the inference on a body as that of a method. -/
def notesIn
    (body : Body)
    (thisClass : BinaryName)
    (method : Method)
    (hierarchy : Hierarchy)
    (threshold : Nat) : Array Notes :=
  ((FlowGraph.ofBody body).inferRun (body.typingContext hierarchy threshold thisClass)
    (body.localsIn thisClass method)).notes

/-- The labels for the frames of a body as that of a method. -/
def planIn
    (body : Body)
    (thisClass : BinaryName)
    (method : Method)
    (hierarchy : Hierarchy)
    (threshold : Nat) : LabelPlan :=
  (FlowGraph.ofBody body).labelPlan body (body.localsIn thisClass method)
    (body.notesIn thisClass method hierarchy threshold)

/-- What is found out about a body as that of a method. -/
def framingIn
    (body : Body)
    (thisClass : BinaryName)
    (method : Method)
    (hierarchy : Hierarchy)
    (threshold : Nat) : Framing :=
  (((Session.ofBody body).withThreshold threshold).computeFrames hierarchy thisClass
    (method.typedStartLocals thisClass)).1

/-- The labels and the frames of a framing have been recorded in a body. -/
structure Records (body : Body) (framing : Framing) (after : Body) : Prop where
  instructions_eq : after.instructions = placeLabels body.instructions framing.injections
  ranges_eq : after.ranges = body.ranges
  frames_eq : after.frames = framing.frames
  nextLabel_eq : after.nextLabel = framing.nextLabel

/-- The labels and the frames are recorded, whether the limits fit or not. -/
theorem records_record (body : Body) (framing : Framing) :
    body.Records framing (body.record framing).1 := by
  unfold record
  obtain ⟨set_eq, _⟩ | ⟨_, _, set_eq, _⟩ | ⟨_, _, _, _, set_eq⟩ := setMaxes_cases _ _ _ <;>
    rw [set_eq] <;> exact ⟨rfl, rfl, rfl, rfl⟩

/-- A body is recorded without an error exactly if both limits fit. -/
theorem snd_record_eq_none_iff {body : Body} {framing : Framing} :
    (body.record framing).2 = none ↔ framing.maxStack ≤ 65535 ∧ framing.maxLocals ≤ 65535 := by
  unfold record
  obtain ⟨set_eq, deep⟩ | ⟨_, _, set_eq, many⟩ | ⟨stack, locals, stack_eq, locals_eq, set_eq⟩ :=
    setMaxes_cases _ framing.maxStack framing.maxLocals
  · rw [set_eq]
    exact ⟨nofun, fun fits => absurd fits.1 (Nat.not_le.mpr deep)⟩
  · rw [set_eq]
    exact ⟨nofun, fun fits => absurd fits.2 (Nat.not_le.mpr many)⟩
  · rw [set_eq, ← stack_eq, ← locals_eq]
    exact iff_of_true rfl
      ⟨Nat.le_of_lt_succ stack.toNat_lt, Nat.le_of_lt_succ locals.toNat_lt⟩

section Inferred

variable {body after : Body}
variable (thisClass : BinaryName) (method : Method) (hierarchy : Hierarchy)

/-- Frames are recomputed by recording them. -/
theorem recompute_of_frames
    {settings : Settings}
    (frames : settings.compute = .frames) :
    body.recompute thisClass method (some hierarchy) settings =
      body.record (body.framingIn thisClass method hierarchy settings.threshold) := by
  unfold recompute
  rw [frames]
  rfl

/-- What holds of all slots without uninitialized objects holds of the locals at the entry. -/
theorem holds_of_mem_localsIn {Holds : Slot → Prop} (lenient : Lenient Holds) :
    ∀ slot ∈ body.localsIn thisClass method, Holds slot :=
  FlowGraph.holds_of_mem_entryLocals lenient.top body.instructions
    (lenient.holds_of_mem_typedStartLocals method thisClass)

variable (threshold : Nat)

theorem size_notesIn :
    (body.notesIn thisClass method hierarchy threshold).size =
      (FlowGraph.ofBody body).blocks.size := by
  rw [notesIn, Analysis.size_reaches (FlowGraph.reaches_inferRun _ _ _)]
  simp [FlowGraph.opening]

theorem allAllocated_notesIn :
    FlowGraph.AllAllocated body (body.notesIn thisClass method hierarchy threshold) :=
  FlowGraph.all_isAllocated (holds_of_mem_localsIn thisClass method (lenient_isAllocated body))
    (Or.inl (FlowGraph.reaches_inferRun _ _ _))

/-- Without instructions nothing is found out. -/
theorem framingIn_of_empty (empty : body.instructions = []) :
    body.framingIn thisClass method hierarchy threshold =
      Session.emptyFraming body (method.typedStartLocals thisClass) :=
  congrArg Prod.fst (Session.computeFrames_of_empty threshold hierarchy thisClass _ empty)

/-- The frames are read off the notes of the inference. -/
theorem framingIn_eq (filled : body.instructions ≠ []) :
    body.framingIn thisClass method hierarchy threshold =
      (FlowGraph.ofBody body).framing body (body.localsIn thisClass method)
        (body.notesIn thisClass method hierarchy threshold) :=
  Session.framing_computeFrames threshold hierarchy thisClass _ filled

/-- Frames are recomputed without an error exactly if all that is noted fits. -/
theorem snd_recompute_eq_none_iff
    {settings : Settings}
    (frames : settings.compute = .frames)
    (filled : body.instructions ≠ []) :
    (body.recompute thisClass method (some hierarchy) settings).2 = none ↔
      (∀ notes ∈ (body.notesIn thisClass method hierarchy settings.threshold).toList,
        notes.maxDepth ≤ 65535) ∧
      (body.localsIn thisClass method).length ≤ 65535 ∧
      ∀ notes ∈ (body.notesIn thisClass method hierarchy settings.threshold).toList,
        ∀ state, notes.inputState = some state → state.locals.length ≤ 65535 := by
  rw [recompute_of_frames thisClass method hierarchy frames, snd_record_eq_none_iff,
    framingIn_eq thisClass method hierarchy _ filled, FlowGraph.maxStack_framing_le_iff,
    FlowGraph.maxLocals_framing_le_iff]

variable {thisClass method hierarchy threshold}

/-- The labels for the frames have been put into a body that is recorded. -/
theorem Records.extends_planIn
    (records : body.Records (body.framingIn thisClass method hierarchy threshold) after)
    (distinct : body.DistinctMarks)
    (ahead : body.Ahead)
    (filled : body.instructions ≠ []) :
    (body.planIn thisClass method hierarchy threshold).Extends body after := by
  have issues : (body.planIn thisClass method hierarchy threshold).Issues body body.IsReal :=
    FlowGraph.issues_labelPlan (size_notesIn thisClass method hierarchy threshold)
      (allAllocated_notesIn thisClass method hierarchy threshold)
      (holds_of_mem_localsIn thisClass method (lenient_isAllocated body))
  refine ⟨issues, distinct, ahead, ?_, records.ranges_eq⟩
  rw [records.instructions_eq, framingIn_eq thisClass method hierarchy threshold filled]
  rfl

/-- After a body is recorded, its frames fit, and the labels that have been issued have been
put into it. -/
theorem Records.exists_extends
    (records : body.Records (body.framingIn thisClass method hierarchy threshold) after)
    (distinct : body.DistinctMarks)
    (ahead : body.Ahead) :
    ∃ plan : LabelPlan, plan.Extends body after ∧
      (body.framingIn thisClass method hierarchy threshold).injections = plan.injections ∧
      after.nextLabel = plan.nextLabel ∧ after.FramesFit := by
  by_cases empty : body.instructions = []
  · obtain ⟨instructions_eq, ranges_eq, frames_eq, nextLabel_eq⟩ := records
    have injections_eq : (Session.emptyFraming body
        (method.typedStartLocals thisClass)).injections = (LabelPlan.ofBody body).injections :=
      (LabelPlan.injections_ofBody body).symm
    rw [framingIn_of_empty thisClass method hierarchy threshold empty] at *
    rw [injections_eq] at instructions_eq
    have none_ : ∀ {Holds : Label × BodyFrame → Prop}, ∀ frame ∈ after.frames, Holds frame :=
      fun frame present => absurd (frames_eq ▸ present) List.not_mem_nil
    exact ⟨_, ⟨LabelPlan.issues_ofBody body _, distinct, ahead, instructions_eq, ranges_eq⟩,
      injections_eq, nextLabel_eq,
      framesFit_of_fronts none_ none_ (frames_eq ▸ List.Pairwise.nil)⟩
  · have extends_ := records.extends_planIn distinct ahead empty
    have framing_eq := framingIn_eq thisClass method hierarchy threshold empty
    have fit := FlowGraph.framesFit (size_notesIn thisClass method hierarchy threshold)
      (allAllocated_notesIn thisClass method hierarchy threshold) extends_
      (records.frames_eq.trans (congrArg Framing.frames framing_eq))
    exact ⟨_, extends_, congrArg Framing.injections framing_eq,
      records.nextLabel_eq.trans (congrArg Framing.nextLabel framing_eq), fit⟩

end Inferred

/-- Frames and injected labels always fit together. -/
theorem fits_recompute
    (body : Body)
    (thisClass : BinaryName)
    (method : Method)
    (hierarchy : Hierarchy)
    {settings : Settings}
    (frames : settings.compute = .frames)
    (distinct : body.DistinctMarks)
    (ahead : body.Ahead) :
    let after := (body.recompute thisClass method (some hierarchy) settings).1
    let injected :=
      (body.framingIn thisClass method hierarchy settings.threshold).injections.map (·.2)
    after.FramesFit ∧
      after.instructions.filter
        (fun instruction => !injected.any (instruction.marks? == some ·)) = body.instructions ∧
      after.DistinctMarks ∧ after.Ahead := by
  dsimp only
  rw [recompute_of_frames thisClass method hierarchy frames]
  obtain ⟨plan, extends_, injections_eq, nextLabel_eq, fit⟩ :=
    (body.records_record _).exists_extends distinct ahead
  rw [injections_eq]
  exact ⟨fit, extends_.filter_instructions, extends_.distinctMarks,
    extends_.ahead_after nextLabel_eq fit⟩

/-- A body that loops with an uninitialized object on the stack. -/
def allocatingBranch : Body :=
  .ofInstructions
    [.type .new (.object .string), .mark ⟨0⟩, .branch .goto ⟨0⟩] [] ⟨1⟩

/-- A method with the body. -/
def branchingMethod : Method :=
  { Session.allocatingMethod with body := some allocatingBranch }

/-- The label for the object, which is put in front of the first instruction, and the one
that was there fit the frame. -/
theorem fits_recompute_allocatingBranch :
    Settings.default.compute = .frames ∧ allocatingBranch.DistinctMarks ∧
      allocatingBranch.Ahead ∧
      (allocatingBranch.recompute .string branchingMethod
        (some Session.cyclicTable.hierarchy) .default).1.FramesFit := by
  have distinct : allocatingBranch.DistinctMarks := by decide
  have ahead : allocatingBranch.Ahead := by decide
  have fits := fits_recompute allocatingBranch .string branchingMethod
    Session.cyclicTable.hierarchy (show Settings.default.compute = .frames from rfl) distinct
    ahead
  exact ⟨rfl, distinct, ahead, fits.1⟩

/-! ## Recomputing twice -/

section Twice

variable {body after : Body} {framing : Framing}

theorem placeLabels_nil (instructions : List Instruction) :
    placeLabels instructions [] = instructions := by
  have unwoven : ∀ position, weave (placedAt? []) position instructions = instructions := by
    induction instructions with
    | nil => exact fun _ => rfl
    | cons instruction rest hypothesis =>
        exact fun position => congrArg (instruction :: ·) (hypothesis (position + 1))
  rw [placeLabels_eq .nil (fun _ absent => absurd absent List.not_mem_nil), unwoven]

/-- To record the same without any labels changes nothing. -/
theorem record_of_records
    (recorded : body.record framing = (after, none)) :
    after.record { framing with injections := [], nextLabel := after.nextLabel } =
      (after, none) := by
  unfold record setMaxes at recorded
  dsimp only at recorded
  split at recorded
  · cases recorded
  next stack stack_eq =>
      split at recorded
      · cases recorded
      next locals locals_eq =>
          obtain ⟨rfl, _⟩ := Prod.mk.inj recorded
          simp only [record, setMaxes, injectLabels, placeLabels_nil]
          rw [stack_eq]
          dsimp only
          rw [locals_eq]

variable {thisClass : BinaryName} {method : Method} {hierarchy : Hierarchy} {threshold : Nat}

/-- The inference on a recorded body finds the same at the new positions. -/
theorem notesIn_woven
    (extends_ : (body.planIn thisClass method hierarchy threshold).Extends body after)
    (filled : body.instructions ≠ [])
    (shallow : ∀ notes ∈ body.notesIn thisClass method hierarchy threshold,
      notes.outputState.stack.depth ≤ 2 * body.instructions.length) :
    after.notesIn thisClass method hierarchy threshold =
      (body.notesIn thisClass method hierarchy threshold).map
        (Notes.rename
          (moved (body.planIn thisClass method hierarchy threshold).injected?)) := by
  have plain := @holds_of_mem_localsIn body thisClass method _
    (lenient_renameSlot
      (moved (body.planIn thisClass method hierarchy threshold).injected?))
  have drained := FlowGraph.drains_inferRun hierarchy threshold thisClass
    (method.typedStartLocals thisClass) filled
  have neverCuts : (FlowGraph.ofBody body).NeverCuts
      (body.typingContext hierarchy threshold thisClass) (body.localsIn thisClass method) :=
    FlowGraph.neverCuts_of_drained filled drained
      fun notes present => shallow notes (Array.mem_toList_iff.mp present)
  have run_eq := extends_.inferRun_eq plain neverCuts drained
  have locals_eq : after.localsIn thisClass method = body.localsIn thisClass method :=
    extends_.entryLocals_eq _
  rw [notesIn, locals_eq, run_eq]
  rfl

/-- What is found out about a recorded body has been recorded in it. -/
theorem framingIn_woven
    (records : body.Records (body.framingIn thisClass method hierarchy threshold) after)
    (distinct : body.DistinctMarks)
    (ahead : body.Ahead)
    (shallow : ∀ notes ∈ body.notesIn thisClass method hierarchy threshold,
      notes.outputState.stack.depth ≤ 2 * body.instructions.length) :
    after.framingIn thisClass method hierarchy threshold =
      { body.framingIn thisClass method hierarchy threshold with
        injections := []
        nextLabel := after.nextLabel } := by
  by_cases empty : body.instructions = []
  · have emptyToo : after.instructions = [] := by
      rw [records.instructions_eq, framingIn_of_empty thisClass method hierarchy threshold empty,
        empty]
      exact placeLabels_nil []
    rw [framingIn_of_empty thisClass method hierarchy threshold empty,
      framingIn_of_empty thisClass method hierarchy threshold emptyToo]
    rfl
  · have extends_ := records.extends_planIn distinct ahead empty
    have filled : after.instructions ≠ [] := by
      rw [extends_.instructions_eq_weave]
      exact weave_ne_nil empty
    have locals_eq : after.localsIn thisClass method = body.localsIn thisClass method :=
      extends_.entryLocals_eq _
    have plain := @holds_of_mem_localsIn body thisClass method _
      (lenient_of_origins fun _ => False)
    rw [framingIn_eq thisClass method hierarchy threshold filled,
      framingIn_eq thisClass method hierarchy threshold empty, locals_eq,
      notesIn_woven extends_ empty shallow]
    exact FlowGraph.framing_woven (size_notesIn thisClass method hierarchy threshold)
      (allAllocated_notesIn thisClass method hierarchy threshold)
      (fun slot present origin same => plain slot present origin same) extends_

/-- Recomputing frames is idempotent, unless a stack at the end of a block is too deep to be
passed on as it is. -/
theorem recompute_idempotent
    (body : Body)
    (thisClass : BinaryName)
    (method : Method)
    (hierarchy : Hierarchy)
    {settings : Settings}
    (frames : settings.compute = .frames)
    (distinct : body.DistinctMarks)
    (ahead : body.Ahead)
    (succeeds : (body.recompute thisClass method (some hierarchy) settings).2 = none)
    (shallow : ∀ notes ∈ body.notesIn thisClass method hierarchy settings.threshold,
      notes.outputState.stack.depth ≤ 2 * body.instructions.length) :
    let after := (body.recompute thisClass method (some hierarchy) settings).1
    after.recompute thisClass method (some hierarchy) settings = (after, none) ∧
      (after.framingIn thisClass method hierarchy settings.threshold).injections = [] := by
  dsimp only
  rw [recompute_of_frames thisClass method hierarchy frames] at succeeds ⊢
  have framing_eq := framingIn_woven (body.records_record _) distinct ahead shallow
  rw [recompute_of_frames thisClass method hierarchy frames, framing_eq]
  exact ⟨record_of_records (Prod.ext rfl succeeds), rfl⟩

/-- The body is a block with the allocation, which goes on to the loop. -/
theorem ofBody_allocatingBranch :
    FlowGraph.ofBody allocatingBranch =
      ⟨#[⟨0, [.type .new (.object .string)], [(1, .normal)], [], false⟩,
          ⟨1, [.mark ⟨0⟩, .branch .goto ⟨0⟩], [(1, .normal)], [], true⟩],
        #[0, 1, 1]⟩ := by
  simp only [FlowGraph.ofBody, FlowGraph.instructionLeaders, FlowGraph.rangeLeaders,
    FlowGraph.normalExits, FlowGraph.placedRanges, FlowGraph.targetPositions_labelPositions,
    FlowGraph.getElem?_labelPositions]
  decide +kernel

/-- The object lies on the stack of both blocks, next to the receiver in its variable. -/
theorem notesIn_allocatingBranch :
    ∀ notes ∈ (allocatingBranch.notesIn .string branchingMethod Session.cyclicTable.hierarchy
        Settings.default.threshold).toList,
      notes.outputState = ⟨[some (.object (.object .string))], .ofList [some (.uninitialized 0)]⟩ ∧
        notes.maxDepth = 1 ∧ ∀ state ∈ notes.inputState, state.locals.length = 1 := by
  rw [notesIn, ofBody_allocatingBranch]
  decide +kernel

/-- The frame of the loop with the label for the object does not change any more. -/
theorem recompute_idempotent_allocatingBranch :
    Settings.default.compute = .frames ∧ allocatingBranch.DistinctMarks ∧
      allocatingBranch.Ahead ∧
      (allocatingBranch.recompute .string branchingMethod
        (some Session.cyclicTable.hierarchy) .default).2 = none ∧
      (∀ notes ∈ allocatingBranch.notesIn .string branchingMethod
          Session.cyclicTable.hierarchy Settings.default.threshold,
        notes.outputState.stack.depth ≤ 2 * allocatingBranch.instructions.length) ∧
      let after := (allocatingBranch.recompute .string branchingMethod
        (some Session.cyclicTable.hierarchy) .default).1
      after.recompute .string branchingMethod (some Session.cyclicTable.hierarchy) .default =
          (after, none) ∧
        (after.framingIn .string branchingMethod Session.cyclicTable.hierarchy
          Settings.default.threshold).injections = [] := by
  have frames : Settings.default.compute = .frames := rfl
  have distinct : allocatingBranch.DistinctMarks := by decide
  have ahead : allocatingBranch.Ahead := by decide
  have small := notesIn_allocatingBranch
  have shallow : ∀ notes ∈ allocatingBranch.notesIn .string branchingMethod
      Session.cyclicTable.hierarchy Settings.default.threshold,
      notes.outputState.stack.depth ≤ 2 * allocatingBranch.instructions.length := by
    intro notes present
    rw [(small notes (Array.mem_toList_iff.mpr present)).1]
    decide
  have succeeds : (allocatingBranch.recompute .string branchingMethod
      (some Session.cyclicTable.hierarchy) .default).2 = none := by
    refine (snd_recompute_eq_none_iff _ _ _ frames (by decide)).mpr
      ⟨fun notes present => ?_, by decide, fun notes present state state_eq => ?_⟩
    · rw [(small notes present).2.1]
      decide
    · rw [(small notes present).2.2 state state_eq]
      decide
  exact ⟨frames, distinct, ahead, succeeds, shallow,
    recompute_idempotent allocatingBranch .string branchingMethod
      Session.cyclicTable.hierarchy frames distinct ahead succeeds shallow⟩

end Twice

end Body
end StackMaps
