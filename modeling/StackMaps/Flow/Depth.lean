import StackMaps.Flow.Notes
import StackMaps.Instruction.StackEffect

/-!
# Stack depths

The first of the two analyses counts: it finds the greatest depth of the operand
stack and the greatest number of local slots on any path. Depths never leave the
range that a consistent body of its length can need.
-/

namespace StackMaps

/-- The limits of a body. -/
structure Maxes where
  maxLocals : Nat
  maxStack : Nat
  deriving DecidableEq

/-- The depth at one point of a block with the greatest values up to there. -/
structure DepthCount where
  depth : Nat
  maxDepth : Nat
  maxLocals : Nat
  deriving DecidableEq

namespace Block

/-- The depth behind an instruction. A handler begins with the exception alone. -/
def depthAfter (block : Block) (limit depth : Nat) (instruction : Instruction) : Nat :=
  if block.entersHandler instruction then 1
  else
    let effect := instruction.stackEffect
    min (depth - effect.pops + effect.pushes) limit

/-- Count on behind an instruction. -/
def countStep
    (block : Block)
    (limit : Nat)
    (count : DepthCount)
    (instruction : Instruction) : DepthCount :=
  let depth := block.depthAfter limit count.depth instruction
  { depth
    maxDepth := max count.maxDepth depth
    maxLocals := max count.maxLocals instruction.localsNeeded }

/-- Count through a block, from the notes on its entry. -/
def countDepths (block : Block) (limit : Nat) (notes : Notes) : Notes :=
  let depth := notes.inputDepth.getD 0
  let count := block.instructions.foldl (block.countStep limit)
    { depth
      maxDepth := max notes.maxDepth depth
      maxLocals := max notes.maxLocals notes.inputLocals }
  { notes with
    outputDepth := count.depth
    maxDepth := count.maxDepth
    maxLocals := count.maxLocals }

end Block

namespace Notes

/-- Would the entry of the block become deeper or have more locals? -/
def growsTo (notes : Notes) (depth locals : Nat) : Bool :=
  (match notes.inputDepth with
    | none => true
    | some known => known < depth) ||
    notes.inputLocals < locals

/-- Raise the depth and the locals at the entry. -/
def raiseTo (notes : Notes) (depth locals : Nat) : Notes :=
  { notes with
    inputDepth := some (max (notes.inputDepth.getD depth) depth)
    inputLocals := max notes.inputLocals locals }

end Notes

namespace FlowGraph

/-- Pass depths on to a successor. -/
def passDepth
    (source : Notes)
    (progress : Progress)
    (successor : Nat × Edge) : Progress :=
  let (target, edge) := successor
  let depth := if edge.isException then 1 else source.outputDepth
  let known := progress.notesOn target
  if known.growsTo depth source.maxLocals then
    (progress.record target (known.raiseTo depth source.maxLocals)).enqueue target
  else progress

/-- Count through a block and pass the depths on. -/
def visitDepth (graph : FlowGraph) (limit : Nat) (progress : Progress) (index : Nat) :
    Progress :=
  match graph.blocks[index]? with
  | none => progress
  | some block =>
      let source := block.countDepths limit (progress.notesOn index)
      block.successors.foldl (passDepth source) (progress.record index source)

/-- The greatest number of local slots that an instruction needs. -/
def localsNeeded (instructions : List Instruction) (start : Nat) : Nat :=
  instructions.foldl (fun needed instruction => max needed instruction.localsNeeded) start

/-- More visits than the count can take: with each but the first one, the depth
or the locals at the entry of a block have grown. -/
def depthFuel (graph : FlowGraph) (limit locals : Nat) : Nat :=
  graph.blocks.size * (limit + locals + 2) + 1

/-- Count through all blocks. Wiped notes are given, and the notes of the count
are returned with the limits. -/
def countDepths
    (graph : FlowGraph)
    (instructions : List Instruction)
    (startLocals : Nat)
    (notes : Array Notes) : Maxes × Array Notes :=
  if graph.blocks.isEmpty then (⟨startLocals, 0⟩, notes)
  else
    let limit := 2 * instructions.length
    let start : Progress :=
      { notes := notes.modify 0 fun entry =>
          { entry with inputDepth := some 0, inputLocals := startLocals }
        worklist := .single graph.blocks.size 0 }
    let fuel := graph.depthFuel limit (localsNeeded instructions startLocals)
    let finished := (Progress.run (graph.visitDepth limit) fuel start).notes
    let maxes := finished.foldl
      (fun maxes entry =>
        if entry.isReached then
          ⟨max maxes.maxLocals entry.maxLocals, max maxes.maxStack entry.maxDepth⟩
        else maxes)
      ⟨startLocals, 0⟩
    (maxes, finished)

end FlowGraph

end StackMaps
