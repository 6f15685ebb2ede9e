import StackMaps.Proofs.Recomputing

/-!
# Limits that do not fit

A recomputation fails if a limit that it has found does not fit into 16 bits. It records what
it has found step by step, the labels and frames first, then the limit of the stack and then
that of the locals, and takes nothing back. So the error tells how much of the body is new.
-/

namespace StackMaps
namespace Body

/-! ## What an error leaves -/

/-- What is left of a body when an error comes up after some findings about it. -/
structure IsLeftOf (body : Body) (findings : Framing) (error : Error) (after : Body) : Prop where
  /-- The labels and the frames have been recorded. -/
  records : body.Records findings after
  /-- Nothing that was there is gone, and only marks are new. -/
  sublist : body.instructions.Sublist after.instructions
  filter_eq : after.instructions.filter (!·.isMark) = body.instructions.filter (!·.isMark)
  maxLocals_eq : after.maxLocals = body.maxLocals
  /-- The limit of the stack has been recorded if it fits. -/
  overflows :
    error = .maxStackOverflow findings.maxStack ∧ 65535 < findings.maxStack ∧
        after.maxStack = body.maxStack ∨
      error = .maxLocalsOverflow findings.maxLocals ∧ 65535 < findings.maxLocals ∧
        after.maxStack.toNat = findings.maxStack

variable {body after : Body} {framing : Framing} {error : Error}

theorem setMaxes_of_error
    {maxStack maxLocals : Nat}
    (failed : body.setMaxes maxStack maxLocals = (after, some error)) :
    after = { body with maxStack := after.maxStack } ∧
      (error = .maxStackOverflow maxStack ∧ 65535 < maxStack ∧ after.maxStack = body.maxStack ∨
        error = .maxLocalsOverflow maxLocals ∧ 65535 < maxLocals ∧
          after.maxStack.toNat = maxStack) := by
  obtain ⟨set_eq, deep⟩ | ⟨stack, fits, set_eq, many⟩ | ⟨_, _, _, _, set_eq⟩ :=
    body.setMaxes_cases maxStack maxLocals
  · obtain ⟨rfl, same⟩ := Prod.mk.inj (set_eq.symm.trans failed)
    exact ⟨rfl, Or.inl ⟨(Option.some.inj same).symm, deep, rfl⟩⟩
  · obtain ⟨rfl, same⟩ := Prod.mk.inj (set_eq.symm.trans failed)
    exact ⟨rfl, Or.inr ⟨(Option.some.inj same).symm, many, fits⟩⟩
  · cases congrArg Prod.snd (set_eq.symm.trans failed)

/-- What is recorded in a body before an error is not taken back. -/
theorem isLeftOf_of_record
    (failed : body.record framing = (after, some error)) :
    body.IsLeftOf framing error after := by
  have records := body.records_record framing
  rw [failed] at records
  have recorded := setMaxes_of_error failed
  have maxLocals_eq : after.maxLocals = body.maxLocals :=
    (congrArg Body.maxLocals recorded.1).trans rfl
  refine ⟨records, ?_, ?_, maxLocals_eq, recorded.2⟩
  · rw [records.instructions_eq]
    exact sublist_placeLabels _ _
  · rw [records.instructions_eq]
    exact filter_placeLabels _ _

/-! ## A body with too many locals -/

/-- A body that writes the last variable there can be, with a wide value, after it has jumped
with an uninitialized object on the stack. -/
def overflowing : Body :=
  .ofInstructions
    [.type .new (.object .string), .branch .goto ⟨0⟩, .mark ⟨0⟩, .push (.long 0),
      .var .lstore 65535, .simple .returnVoid] [] ⟨1⟩

/-- A static method with the body. -/
def overflowingMethod : Method :=
  { Session.allocatingMethod with flags := ⟨8⟩, body := some overflowing }

/-- The blocks of the body, the second of which is jumped to. -/
def overflowingGraph : FlowGraph :=
  ⟨#[⟨0, [.type .new (.object .string), .branch .goto ⟨0⟩], [(1, .normal)], [], false⟩,
      ⟨2, [.mark ⟨0⟩, .push (.long 0), .var .lstore 65535, .simple .returnVoid], [], [], true⟩],
    #[0, 0, 1, 1, 1, 1]⟩

theorem ofBody_overflowing : FlowGraph.ofBody overflowing = overflowingGraph := by
  simp only [FlowGraph.ofBody, FlowGraph.instructionLeaders, FlowGraph.rangeLeaders,
    FlowGraph.normalExits, FlowGraph.placedRanges, FlowGraph.targetPositions_labelPositions,
    FlowGraph.getElem?_labelPositions]
  decide +kernel

/-- The stack holds a wide value above the object, which is more than was recorded. -/
theorem recompute_maxes_overflowing :
    overflowing.recompute .object overflowingMethod none ⟨.maxes, defaultThreshold⟩ =
      ({ overflowing with maxStack := 3 }, some (.maxLocalsOverflow 65537)) := by
  simp only [recompute, Session.computeMaxes, Session.ofBody, ofBody_overflowing]
  decide +kernel

/-- All variables are there from the start, which are too many to look at each of them. -/
theorem localsIn_overflowing :
    overflowing.localsIn .object overflowingMethod = List.replicate 65537 (some .top) := by
  have start : overflowingMethod.typedStartLocals .object = [] := by decide
  have needed : FlowGraph.localsNeeded overflowing.instructions 0 = 65537 := by decide
  rw [localsIn, FlowGraph.entryLocals, start, List.length_nil, needed]
  rfl

section Frames

/-- The notes on the blocks, each of which is visited once, with any locals. -/
def overflowingNotes (locals : List Slot) : Array Notes :=
  let allocated : SlotState := ⟨locals, .ofList [some (.uninitialized 0)]⟩
  #[{ Notes.blank with
      inputState := some ⟨locals, .empty⟩
      outputState := allocated
      maxDepth := 1
      visits := 1 },
    { Notes.blank with
      inputState := some allocated
      outputState := allocated.store 65535 (some .long)
      maxDepth := 3
      visits := 1 }]

variable (hierarchy : Hierarchy)

theorem inferRun_overflowing (locals : List Slot) :
    (overflowingGraph.inferRun (overflowing.typingContext hierarchy defaultThreshold .object)
      locals).notes = overflowingNotes locals :=
  rfl

theorem framingIn_overflowing :
    overflowing.framingIn .object overflowingMethod hierarchy defaultThreshold =
      overflowingGraph.framing overflowing (List.replicate 65537 (some .top))
        (overflowingNotes (List.replicate 65537 (some .top))) := by
  rw [framingIn_eq _ _ _ _ (by decide), notesIn, localsIn_overflowing, ofBody_overflowing,
    inferRun_overflowing]

/-- The frame of the second block holds at the instruction behind the mark. -/
theorem frameSites_overflowing (locals : List Slot) :
    overflowingGraph.frameSites (overflowingNotes locals) =
      [⟨⟨locals, .ofList [some (.uninitialized 0)]⟩, 3⟩] :=
  rfl

theorem labelPlan_overflowing (count : Nat) :
    overflowingGraph.labelPlan overflowing (List.replicate count (some .top))
        (overflowingNotes (List.replicate count (some .top))) =
      [0, 3].foldl LabelPlan.demand (.ofBody overflowing) := by
  have none_ : origins (List.replicate count (some .top)) = [] := by simp [origins]
  rw [FlowGraph.labelPlan, frameSites_overflowing]
  simp only [List.flatMap_cons, List.flatMap_nil, FrameSite.demands, none_]
  rfl

/-- The allocation gets a new label, and the target of the jump has one already. -/
theorem framing_overflowing (count : Nat) :
    let locals := List.replicate count (some .top)
    let framing := overflowingGraph.framing overflowing locals (overflowingNotes locals)
    framing.injections = [(0, ⟨1⟩)] ∧ framing.nextLabel = ⟨2⟩ ∧ framing.frames.length = 1 ∧
      framing.maxStack = 3 ∧ framing.maxLocals = count := by
  have plan := labelPlan_overflowing count
  have injections_eq := congrArg LabelPlan.injections plan
  have nextLabel_eq := congrArg LabelPlan.nextLabel plan
  refine ⟨injections_eq.trans (by decide +kernel), nextLabel_eq.trans (by decide +kernel), rfl,
    rfl, ?_⟩
  simp [FlowGraph.framing, overflowingNotes]

/-- The label, the frame and the limit of the stack are recorded before that of the locals is
found not to fit. -/
theorem recompute_frames_overflowing :
    ∃ after, overflowing.recompute .object overflowingMethod (some hierarchy) .default =
        (after, some (.maxLocalsOverflow 65537)) ∧
      after.instructions = .mark ⟨1⟩ :: overflowing.instructions ∧
      after.frames.length = 1 ∧ after.nextLabel = ⟨2⟩ ∧ after.maxStack = 3 := by
  have found := framing_overflowing 65537
  have placed : placeLabels overflowing.instructions [(0, ⟨1⟩)] =
      .mark ⟨1⟩ :: overflowing.instructions := by decide +kernel
  rw [recompute_of_frames _ _ _ rfl, show Settings.default.threshold = defaultThreshold from rfl,
    framingIn_overflowing]
  -- Only what is known of the framing counts from here on, not its many locals.
  dsimp only at found
  generalize overflowingGraph.framing _ _ _ = framing at found
  obtain ⟨injections, frames, maxLocals, maxStack, nextLabel⟩ := framing
  obtain ⟨rfl, rfl, one, rfl, rfl⟩ := found
  exact ⟨_, rfl, placed, one, rfl, rfl⟩

end Frames

/-! ## Recomputing -/

/-- The limits that are counted for a body as that of a method. Nothing else changes. -/
def countingIn (body : Body) (method : Method) : Framing :=
  let maxes := ((Session.ofBody body).computeMaxes method.startLocals).1
  { injections := []
    frames := body.frames
    maxLocals := maxes.maxLocals
    maxStack := maxes.maxStack
    nextLabel := body.nextLabel }

/-- What a recomputation finds out about a body as that of a method. Frames are only found in
a hierarchy. -/
def findingsIn
    (body : Body)
    (thisClass : BinaryName)
    (method : Method)
    (hierarchy : Option Hierarchy)
    (settings : Settings) : Framing :=
  match settings.compute, hierarchy with
  | .frames, some hierarchy => body.framingIn thisClass method hierarchy settings.threshold
  | _, _ => body.countingIn method

/-- Is nothing but the limits to be recomputed? -/
def CountsOnly (hierarchy : Option Hierarchy) (settings : Settings) : Prop :=
  settings.compute = .frames → hierarchy = none

theorem record_countingIn (body : Body) (method : Method) :
    body.record (body.countingIn method) =
      body.setMaxes (body.countingIn method).maxStack (body.countingIn method).maxLocals := by
  simp only [record, injectLabels, countingIn, placeLabels_nil]

variable {thisClass : BinaryName} {method : Method} {hierarchy : Option Hierarchy}
  {settings : Settings}

/-- What is found is recorded. -/
theorem recompute_eq_record (computes : settings.compute ≠ .nothing) :
    body.recompute thisClass method hierarchy settings =
      body.record (body.findingsIn thisClass method hierarchy settings) := by
  obtain ⟨compute, threshold⟩ := settings
  cases compute with
  | nothing => exact absurd rfl computes
  | maxes => exact (body.record_countingIn method).symm
  | frames =>
      cases hierarchy with
      | none => exact (body.record_countingIn method).symm
      | some classes => exact recompute_of_frames thisClass method classes rfl

theorem findingsIn_of_countsOnly (countsOnly : CountsOnly hierarchy settings) :
    body.findingsIn thisClass method hierarchy settings = body.countingIn method := by
  unfold findingsIn
  split
  · cases countsOnly ‹_›
  · rfl

/-- A recomputation that ends in an error leaves the ranges and the limit of the locals as they
were, and the rest as far as it has been found out before. If only the limits are asked for,
that of the stack is all that can differ. -/
theorem isLeftOf_of_recompute
    (failed : body.recompute thisClass method hierarchy settings = (after, some error)) :
    body.IsLeftOf (body.findingsIn thisClass method hierarchy settings) error after ∧
      (CountsOnly hierarchy settings → after = { body with maxStack := after.maxStack }) := by
  have computes : settings.compute ≠ .nothing := by
    intro nothing
    unfold recompute at failed
    rw [nothing] at failed
    cases congrArg Prod.snd failed
  rw [recompute_eq_record computes] at failed
  refine ⟨isLeftOf_of_record failed, fun countsOnly => ?_⟩
  rw [findingsIn_of_countsOnly countsOnly, record_countingIn] at failed
  exact (setMaxes_of_error failed).1

/-- A recomputation that ends in an error can change all but the ranges and the limit of the
locals, with or without frames. -/
theorem recompute_overflowing_ne :
    (∃ after error,
      overflowing.recompute .object overflowingMethod none ⟨.maxes, defaultThreshold⟩ =
          (after, some error) ∧
        after.maxStack ≠ overflowing.maxStack) ∧
    ∃ after error,
      overflowing.recompute .object overflowingMethod (some ClassGraph.empty.hierarchy)
          .default = (after, some error) ∧
        after.instructions ≠ overflowing.instructions ∧ after.frames ≠ overflowing.frames ∧
        after.nextLabel ≠ overflowing.nextLabel ∧ after.maxStack ≠ overflowing.maxStack := by
  obtain ⟨after, failed, instructions_eq, one, nextLabel_eq, maxStack_eq⟩ :=
    recompute_frames_overflowing ClassGraph.empty.hierarchy
  refine ⟨⟨_, _, recompute_maxes_overflowing, by decide⟩, after, _, failed, ?_, ?_, ?_, ?_⟩
  · rw [instructions_eq]
    exact List.cons_ne_self _ _
  · intro same
    rw [same] at one
    cases one
  · rw [nextLabel_eq]
    decide
  · rw [maxStack_eq]
    decide

/-- What is left of the body without and with frames. -/
theorem isLeftOf_overflowing :
    (overflowing.recompute .object overflowingMethod none ⟨.maxes, defaultThreshold⟩ =
        ({ overflowing with maxStack := 3 }, some (.maxLocalsOverflow 65537)) ∧
      overflowing.IsLeftOf
        (overflowing.findingsIn .object overflowingMethod none ⟨.maxes, defaultThreshold⟩)
        (.maxLocalsOverflow 65537) { overflowing with maxStack := 3 }) ∧
    ∃ after,
      overflowing.recompute .object overflowingMethod (some ClassGraph.empty.hierarchy)
          .default = (after, some (.maxLocalsOverflow 65537)) ∧
        overflowing.IsLeftOf
          (overflowing.findingsIn .object overflowingMethod (some ClassGraph.empty.hierarchy)
            .default)
          (.maxLocalsOverflow 65537) after := by
  obtain ⟨after, failed, _⟩ := recompute_frames_overflowing ClassGraph.empty.hierarchy
  exact ⟨⟨recompute_maxes_overflowing, (isLeftOf_of_recompute recompute_maxes_overflowing).1⟩,
    after, failed, (isLeftOf_of_recompute failed).1⟩

end Body
end StackMaps
