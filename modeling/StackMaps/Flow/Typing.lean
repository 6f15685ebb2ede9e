import StackMaps.Flow.Depth
import StackMaps.Slots.Join
import StackMaps.Slots.Transfer

/-!
# Types of slots

The second of the two analyses finds the types of all slots at the entry of every
block. Blocks are interpreted until no entry changes any more. The entry of a
block that has been visited as often as the threshold says is widened, which
makes the analysis end over every hierarchy.
-/

namespace StackMaps

/-- What the analysis of types depends on besides the blocks. -/
structure TypingContext where
  hierarchy : Hierarchy
  method : MethodContext
  /-- From how many visits on the entry of a block is widened. -/
  threshold : Nat
  /-- The greatest number of slots that pass along an edge on the stack. -/
  stackLimit : Nat

/-- The slots at one point of a block, with the greatest depth of the stack and
the join of the locals up to there. -/
structure TypeCount where
  state : SlotState
  maxDepth : Nat
  exceptionLocals : List Slot

namespace Block

/-- The slots behind an instruction. A handler begins with the exception alone. -/
def stateAfter
    (block : Block)
    (context : MethodContext)
    (state : SlotState)
    (entry : Instruction × Nat) : SlotState :=
  let entered := if block.entersHandler entry.1 then state.enterHandler else state
  entered.interpret context entry.2 entry.1

/-- Interpret one more instruction. The locals are joined only if an exception can
leave the block. -/
def typeStep
    (block : Block)
    (context : TypingContext)
    (count : TypeCount)
    (entry : Instruction × Nat) : TypeCount :=
  let state := block.stateAfter context.method count.state entry
  { state
    maxDepth := max count.maxDepth state.stack.depth
    exceptionLocals :=
      if block.hasExceptionEdge then
        context.hierarchy.mergeSlots false count.exceptionLocals state.locals
      else count.exceptionLocals }

/-- Interpret a block, from the notes on its entry. -/
def interpret (block : Block) (context : TypingContext) (notes : Notes) : Notes :=
  let state := notes.inputState.getD .empty
  let count := (block.instructions.zipIdx block.start).foldl (block.typeStep context)
    { state
      maxDepth := max notes.maxDepth state.stack.depth
      exceptionLocals := if block.hasExceptionEdge then state.locals else [] }
  { notes with
    outputState := count.state
    maxDepth := count.maxDepth
    exceptionLocals := count.exceptionLocals
    visits := notes.visits + 1 }

/-- Join slots into the entry of a block. A handler takes the exception off the
incoming stack and starts with the join of all exceptions, whatever else was on
the stack. -/
def merge
    (block : Block)
    (hierarchy : Hierarchy)
    (widen fromException : Bool)
    (incoming : SlotState)
    (notes : Notes) : Notes :=
  if block.handlers.isEmpty then
    let input :=
      match notes.inputState with
      | none => incoming
      | some input =>
          { locals := hierarchy.mergeSlots widen input.locals incoming.locals
            stack := hierarchy.mergeStack widen input.stack incoming.stack }
    { notes with inputState := some input }
  else
    let caught :=
      if fromException then
        let joined := hierarchy.join notes.caught incoming.peek
        if joined = notes.caught then notes.caught
        else if widen && notes.caught.isSome then some .top
        else joined
      else notes.caught
    let locals :=
      match notes.inputState with
      | none => incoming.locals
      | some input => hierarchy.mergeSlots widen input.locals incoming.locals
    { notes with caught, inputState := some ⟨locals, .ofList [caught]⟩ }

end Block

/-- The slots that pass along an edge out of a block. -/
def Edge.carried
    (edge : Edge)
    (context : TypingContext)
    (source : Notes) : SlotState :=
  match edge with
  | .normal =>
      let stack := source.outputState.stack
      { source.outputState with stack := stack.drop (stack.depth - context.stackLimit) }
  | .exception types =>
      { locals := source.exceptionLocals
        stack := .ofList [context.hierarchy.caughtType types] }

namespace FlowGraph

/-- Pass slots on to a successor, which waits for a visit if its entry changes. -/
def passTypes
    (graph : FlowGraph)
    (context : TypingContext)
    (source : Notes)
    (progress : Progress)
    (successor : Nat × Edge) : Progress :=
  let (target, edge) := successor
  match graph.blocks[target]? with
  | none => progress
  | some block =>
      let before := progress.notesOn target
      let widen := context.threshold ≤ before.visits
      let after :=
        block.merge context.hierarchy widen edge.isException (edge.carried context source) before
      let recorded := progress.record target after
      if after.inputState = before.inputState then recorded else recorded.enqueue target

/-- Interpret a block and pass its slots on. -/
def visitTypes
    (graph : FlowGraph)
    (context : TypingContext)
    (progress : Progress)
    (index : Nat) : Progress :=
  match graph.blocks[index]? with
  | none => progress
  | some block =>
      let source := block.interpret context (progress.notesOn index)
      block.successors.foldl (graph.passTypes context source) (progress.record index source)

/-- More visits than the analysis can take: from the threshold on, every visit of
a block but one follows a change of its entry, by which a slot appears or becomes
`top`. -/
def typingFuel (graph : FlowGraph) (context : TypingContext) (locals : Nat) : Nat :=
  graph.blocks.size * (context.threshold + 2 * (context.stackLimit + locals) + 16) + 1

/-- The locals at the entry of a body. All variables that it mentions are there
from the start, so that one which is set on some paths only ends up as `top`. -/
def entryLocals (instructions : List Instruction) (startLocals : List Slot) : List Slot :=
  let needed := localsNeeded instructions startLocals.length
  startLocals ++ List.replicate (needed - startLocals.length) (some .top)

/-- Find the slots at the entries of all blocks. Wiped notes are given, and the
notes of the analysis are returned. -/
def inferTypes
    (graph : FlowGraph)
    (context : TypingContext)
    (locals : List Slot)
    (notes : Array Notes) : Array Notes :=
  let start : Progress :=
    { notes := notes.modify 0 fun entry => { entry with inputState := some ⟨locals, .empty⟩ }
      worklist := .single graph.blocks.size 0 }
  (Progress.run (graph.visitTypes context) (graph.typingFuel context locals.length) start).notes

end FlowGraph

end StackMaps
