import StackMaps.Body.Basic
import Std.Data.HashMap

/-!
# Flow graphs

A body is cut into blocks, straight runs of instructions that are entered only at
their first one. A block begins at every target of a jump, behind every
instruction that closes a block, at the three labels of every protected range
and behind the first of them. Blocks are connected where control can pass from
one to the other, and where an exception can.
-/

namespace StackMaps

/-- How control passes from one block to another. -/
inductive Edge
  /-- By a jump or by going on. -/
  | normal
  /-- By an exception of one of the classes. -/
  | exception (types : List BinaryName)
  deriving DecidableEq

/-- Is this the way of an exception? -/
def Edge.isException : Edge → Bool
  | .normal => false
  | .exception _ => true

/-- A straight run of instructions. -/
structure Block where
  /-- The position of the first instruction. -/
  start : Nat
  instructions : List Instruction
  /-- The blocks to which control can pass, in ascending order. -/
  successors : List (Nat × Edge)
  /-- The labels in the block at which handlers begin, in ascending order. -/
  handlers : List Label
  /-- Does control ever jump to the block? -/
  needsFrame : Bool
  deriving DecidableEq

namespace Block

/-- The position behind the last instruction. -/
def stop (block : Block) : Nat :=
  block.start + block.instructions.length

/-- Can an exception leave the block for a handler? -/
def hasExceptionEdge (block : Block) : Bool :=
  block.successors.any fun successor => successor.2.isException

/-- Does a handler begin at the instruction? -/
def entersHandler (block : Block) (instruction : Instruction) : Bool :=
  match instruction.marks? with
  | some label => block.handlers.contains label
  | none => false

end Block

/-- The blocks of a body in order, the first of which is its entry, and the block
of every position. -/
structure FlowGraph where
  blocks : Array Block
  blockOf : Array Nat
  deriving DecidableEq

namespace FlowGraph

/-- The block that contains a position. -/
def blockContaining? (graph : FlowGraph) (position : Nat) : Option Nat :=
  graph.blockOf[position]?

/-- Note the label that the instruction marks, unless it has been met before. -/
def notePosition
    (positions : Std.HashMap Label Nat)
    (entry : Instruction × Nat) : Std.HashMap Label Nat :=
  match entry.1.marks? with
  | some label => positions.insertIfNew label entry.2
  | none => positions

/-- The position of every label, given by its first mark. -/
def labelPositions (instructions : List Instruction) : Std.HashMap Label Nat :=
  instructions.zipIdx.foldl notePosition ∅

/-- A label that has been met keeps its position, and any other one is found among
the instructions to come. -/
theorem getElem?_foldl_notePosition
    (instructions : List Instruction)
    (start : Nat)
    (positions : Std.HashMap Label Nat)
    (label : Label) :
    ((instructions.zipIdx start).foldl notePosition positions)[label]? =
      (positions[label]?).or
        ((instructions.findIdx? fun instruction => instruction.marks? == some label).map
          (start + ·)) := by
  induction instructions generalizing start positions with
  | nil => simp
  | cons instruction rest hypothesis =>
      have shift : (start + 1 + ·) = (start + ·) ∘ (· + 1) := by
        funext offset
        simp only [Function.comp_apply]
        omega
      rw [List.zipIdx_cons, List.foldl_cons, hypothesis, List.findIdx?_cons, shift]
      cases marked : instruction.marks? with
      | none => simp [notePosition, marked]
      | some other =>
          by_cases same : other = label
          · subst same
            by_cases known : other ∈ positions
            · simp [notePosition, marked, known, Std.HashMap.getElem_insertIfNew]
            · simp [notePosition, marked, known, Std.HashMap.getElem_insertIfNew]
          · simp [notePosition, marked, same, Std.HashMap.getElem?_insertIfNew]

/-- The position of a label is found by a search from the start of the body. -/
theorem getElem?_labelPositions (body : Body) (label : Label) :
    (labelPositions body.instructions)[label]? = body.positionOf? label := by
  simp [labelPositions, getElem?_foldl_notePosition, Body.positionOf?]

/-- A protected range with the positions of its labels. -/
structure PlacedRange where
  start : Nat
  stop : Nat
  handler : Nat
  label : Label
  catchType : BinaryName

/-- The ranges all labels of which are placed. Without a class a range catches
everything that can be thrown. -/
def placedRanges (positions : Std.HashMap Label Nat) (ranges : List ExceptionRange) :
    List PlacedRange :=
  ranges.filterMap fun range =>
    match positions[range.start]?, positions[range.stop]?, positions[range.handler]? with
    | some start, some stop, some handler =>
        some ⟨start, stop, handler, range.handler, range.catchType.getD .throwable⟩
    | _, _, _ => none

/-- The positions to which an instruction may jump. -/
def targetPositions (positions : Std.HashMap Label Nat) (instruction : Instruction) :
    List Nat :=
  instruction.jumpTargets.filterMap fun label => positions[label]?

/-- The positions at which the instructions make blocks begin. -/
def instructionLeaders (positions : Std.HashMap Label Nat) (instructions : List Instruction) :
    List Nat :=
  instructions.zipIdx.flatMap fun (instruction, position) =>
    targetPositions positions instruction ++
      if instruction.endsBlock then [position + 1] else []

/-- The positions at which the ranges make blocks begin. -/
def rangeLeaders (positions : Std.HashMap Label Nat) (ranges : List ExceptionRange) :
    List Nat :=
  ranges.flatMap fun range =>
    ([range.start, range.stop, range.handler].filterMap fun label => positions[label]?) ++
      match positions[range.start]? with
      | some start => [start + 1]
      | none => []

/-- Which of some positions are listed? -/
def flagged (count : Nat) (listed : List Nat) : Array Bool :=
  listed.foldl (fun flags position => flags.setIfInBounds position true)
    (Array.replicate count false)

/-- One step of `segments`, from the right. -/
def segmentStep
    (leaders : Array Bool)
    (entry : Instruction × Nat)
    (behind : List (Nat × List Instruction)) : List (Nat × List Instruction) :=
  match behind with
  | [] => [(entry.2, [entry.1])]
  | (start, run) :: rest =>
      if leaders.getD start false then (entry.2, [entry.1]) :: (start, run) :: rest
      else (entry.2, entry.1 :: run) :: rest

/-- Cut a body in front of the flagged positions. Every part comes with the
position of its first instruction. -/
def segments (leaders : Array Bool) (instructions : List Instruction) :
    List (Nat × List Instruction) :=
  instructions.zipIdx.foldr (segmentStep leaders) []

/-- The part that contains each position. -/
def segmentOf (parts : List (Nat × List Instruction)) : Array Nat :=
  (parts.zipIdx.flatMap fun (part, index) => List.replicate part.2.length index).toArray

/-- Natural numbers in ascending order, each of them once. -/
def ascending (numbers : List Nat) : List Nat :=
  (numbers.mergeSort fun left right => left ≤ right).eraseReps

/-- The exceptions that can leave a block: the handlers' blocks with the classes,
in the order of the ranges. -/
def exceptionExits
    (blockOf : Array Nat)
    (ranges : List PlacedRange)
    (start : Nat) : List (Nat × BinaryName) :=
  ranges.filterMap fun range =>
    if range.start ≤ start && start < range.stop then
      some (blockOf.getD range.handler 0, range.catchType)
    else none

/-- The blocks to which a block can pass on control by its last instruction. -/
def normalExits
    (positions : Std.HashMap Label Nat)
    (blockOf : Array Nat)
    (part : Nat × List Instruction) : List Nat :=
  match part.2.getLast? with
  | none => []
  | some last =>
      ((targetPositions positions last).filterMap fun target => blockOf[target]?) ++
        if last.fallsThrough then (blockOf[part.1 + part.2.length]?).toList else []

/-- The edges to the given blocks. An exception takes precedence over a jump, and
its classes keep their order. -/
def edges (normal : List Nat) (exceptions : List (Nat × BinaryName)) : List (Nat × Edge) :=
  (ascending (normal ++ exceptions.map (·.1))).map fun target =>
    let types := (exceptions.filter (·.1 == target)).map (·.2)
    (target, if types.isEmpty then .normal else .exception types.eraseDups)

/-- The labels of the handlers that begin in a block. -/
def handlersIn (blockOf : Array Nat) (ranges : List PlacedRange) (index : Nat) :
    List Label :=
  let labels := ranges.filterMap fun range =>
    if blockOf[range.handler]? = some index then some range.label.id else none
  (ascending labels).map Label.mk

/-- The flow graph of a body. -/
def ofBody (body : Body) : FlowGraph :=
  let positions := labelPositions body.instructions
  let count := body.instructions.length
  let leaders := flagged count
    (instructionLeaders positions body.instructions ++ rangeLeaders positions body.ranges)
  let parts := segments leaders body.instructions
  let blockOf := segmentOf parts
  let ranges := placedRanges positions body.ranges
  let jumpedTo := flagged count
    (body.instructions.flatMap (targetPositions positions) ++ ranges.map (·.handler))
  let block (part : Nat × List Instruction) (index : Nat) : Block :=
    { start := part.1
      instructions := part.2
      successors := edges (normalExits positions blockOf part)
        (exceptionExits blockOf ranges part.1)
      handlers := handlersIn blockOf ranges index
      needsFrame := jumpedTo.getD part.1 false }
  { blocks := (parts.zipIdx.map fun (part, index) => block part index).toArray
    blockOf }

end FlowGraph

end StackMaps
