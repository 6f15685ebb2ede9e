import StackMaps.Flow.LabelPlan
import StackMaps.Flow.Typing

/-!
# Frames of a body

The slots at the entries of blocks become the frames of the body. Every reached
block that is jumped to has a frame, at its first real instruction. A block of
labels alone has no such instruction, and hands its frame on to the next block.
-/

namespace StackMaps

/-- The outcome of the analysis of types. -/
structure Framing where
  /-- Labels to be put in front of the instructions at their positions. -/
  injections : List (Nat × Label)
  /-- The frames in the order of the body. -/
  frames : List (Label × BodyFrame)
  maxLocals : Nat
  maxStack : Nat
  /-- The next label to be issued. -/
  nextLabel : Label

/-- A frame that is to be written: the slots, and the position of the
instruction in front of which they hold. -/
structure FrameSite where
  state : SlotState
  position : Nat

namespace FlowGraph

/-- The position of the first instruction of a block that is not a mark. -/
def firstReal? (block : Block) : Option Nat :=
  (block.instructions.findIdx? fun instruction => !instruction.isMark).map (block.start + ·)

/-- Go on to the next block. Does a frame wait for an instruction, and which ones
have found theirs, the latest first? -/
def siteStep
    (progress : Bool × List FrameSite)
    (entry : Block × Notes) : Bool × List FrameSite :=
  let (waiting, sites) := progress
  let (block, notes) := entry
  match notes.inputState with
  | none => (false, sites)
  | some state =>
      if block.needsFrame || waiting then
        match firstReal? block with
        | none => (true, sites)
        | some position => (false, ⟨state, position⟩ :: sites)
      else (false, sites)

/-- The frames to be written, in the order of the body. -/
def frameSites (graph : FlowGraph) (notes : Array Notes) : List FrameSite :=
  ((graph.blocks.toList.zip notes.toList).foldl siteStep (false, [])).2.reverse

end FlowGraph

/-- The positions of the allocations in some slots. -/
def origins (slots : List Slot) : List Nat :=
  slots.filterMap fun slot =>
    match slot with
    | some (.uninitialized origin) => some origin
    | _ => none

/-- The positions for which a frame needs labels. -/
def FrameSite.demands (site : FrameSite) : List Nat :=
  origins site.state.locals ++ origins site.state.stack.slots.reverse ++ [site.position]

/-- Slots with labels in place of the positions of allocations. -/
def LabelPlan.resolve (plan : LabelPlan) (slots : List Slot) :
    List (Option (VerificationType RefType Label)) :=
  slots.map fun slot => slot.map (VerificationType.map id plan.label)

/-- The frame of a state. -/
def LabelPlan.frame (plan : LabelPlan) (state : SlotState) : Frame RefType Label :=
  .ofSlots (plan.resolve state.locals) (plan.resolve state.stack.slots.reverse)

namespace FlowGraph

/-- The frames of a body from the notes on its blocks. -/
def framing
    (graph : FlowGraph)
    (body : Body)
    (locals : List Slot)
    (notes : Array Notes) : Framing :=
  let sites := graph.frameSites notes
  let plan := (origins locals ++ sites.flatMap FrameSite.demands).foldl LabelPlan.demand
    (.ofBody body)
  let frames := sites.map fun site => (plan.label site.position, plan.frame site.state)
  let entry := plan.frame ⟨locals, .empty⟩
  { injections := plan.injections
    frames := List.zipWith (fun frame previous => (frame.1, frame.2.compact previous))
      frames (entry :: frames.map (·.2))
    maxLocals := notes.foldl
      (fun greatest entry =>
        match entry.inputState with
        | some state => max greatest state.locals.length
        | none => greatest)
      locals.length
    maxStack := notes.foldl (fun greatest entry => max greatest entry.maxDepth) 0
    nextLabel := plan.nextLabel }

/-- Find the frames of a body. Wiped notes are given, and the notes of the analysis
are returned with the frames. -/
def computeFrames
    (graph : FlowGraph)
    (body : Body)
    (hierarchy : Hierarchy)
    (threshold : Nat)
    (thisClass : BinaryName)
    (startLocals : List Slot)
    (notes : Array Notes) : Framing × Array Notes :=
  let locals := entryLocals body.instructions startLocals
  if graph.blocks.isEmpty then
    ({ injections := []
       frames := []
       maxLocals := locals.length
       maxStack := 0
       nextLabel := body.nextLabel }, notes)
  else
    let context : TypingContext :=
      { hierarchy
        method := { thisClass, instructions := body.instructions.toArray }
        threshold
        stackLimit := 2 * body.instructions.length }
    let finished := graph.inferTypes context locals notes
    (graph.framing body locals finished, finished)

end FlowGraph

end StackMaps
