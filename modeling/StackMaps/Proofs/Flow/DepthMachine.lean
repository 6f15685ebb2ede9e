import StackMaps.Proofs.Flow.Control
import StackMaps.Proofs.Flow.Counting
import Mathlib.Data.Set.Insert
import Mathlib.Order.Bounds.Defs

/-!
# Depths at positions

A machine runs through a body instruction by instruction and knows nothing but
its position and the depth of the stack. This module relates its steps to the
blocks of the body: inside a block it replays depths, and it leaves a block along
the edges.
-/

namespace StackMaps
namespace Body

/-- Is the instruction the mark of the handler of a range all labels of which are
placed? -/
def marksHandler (body : Body) (instruction : Instruction) : Bool :=
  body.ranges.any fun range =>
    (body.positionOf? range.start).isSome && (body.positionOf? range.stop).isSome &&
      (body.positionOf? range.handler).isSome && instruction.marks? == some range.handler

/-- The greatest depth that is told apart. -/
def depthLimit (body : Body) : Nat := 2 * body.instructions.length

theorem depthLimit_pos {body : Body} (filled : body.instructions ≠ []) : 1 ≤ body.depthLimit := by
  have := List.length_pos_iff.mpr filled
  simp only [depthLimit]
  omega

/-- The depth behind an instruction. -/
def depthBehind (body : Body) (depth : Nat) (instruction : Instruction) : Nat :=
  if body.marksHandler instruction then 1
  else
    min (depth - instruction.stackEffect.pops + instruction.stackEffect.pushes) body.depthLimit

/-- The positions that control can reach, with the depths with which it comes
there. -/
inductive DepthReached (body : Body) : Nat → Nat → Prop
  /-- The empty stack at the entry. -/
  | entry
      (filled : body.instructions ≠ []) :
      DepthReached body 0 0
  /-- By going on to the next instruction. -/
  | next {position depth : Nat} {instruction : Instruction}
      (reached : DepthReached body position depth)
      (found : body.instructions[position]? = some instruction)
      (falls : instruction.fallsThrough = true)
      (inside : position + 1 < body.instructions.length) :
      DepthReached body (position + 1) (body.depthBehind depth instruction)
  /-- By a jump to a label that is placed. -/
  | jump {position depth target : Nat} {instruction : Instruction} {label : Label}
      (reached : DepthReached body position depth)
      (found : body.instructions[position]? = some instruction)
      (jumps : label ∈ instruction.jumpTargets)
      (placed : body.positionOf? label = some target) :
      DepthReached body target (body.depthBehind depth instruction)
  /-- By an exception, to the handler of a range that covers the position. -/
  | throw {position depth start stop handler : Nat} {range : ExceptionRange}
      (reached : DepthReached body position depth)
      (places : body.Places range start stop handler)
      (within : start ≤ position)
      (before : position < stop) :
      DepthReached body handler 1

/-- The depths in front of and behind the instructions that are reached. -/
def depthsMet (body : Body) : Set Nat :=
  {met | ∃ position depth instruction, body.DepthReached position depth ∧
    body.instructions[position]? = some instruction ∧
    (met = depth ∨ met = body.depthBehind depth instruction)}

/-- The ends of the local slots that are touched by the instructions that are
reached. -/
def localsMet (body : Body) : Set Nat :=
  {met | ∃ position depth instruction index width, body.DepthReached position depth ∧
    body.instructions[position]? = some instruction ∧
    instruction.localSlots? = some (index, width) ∧ met = index + width}

/-- No label is placed twice. -/
def PlacesLabelsOnce (body : Body) : Prop :=
  (body.instructions.filterMap Instruction.marks?).Nodup

instance (body : Body) : Decidable body.PlacesLabelsOnce :=
  inferInstanceAs (Decidable (body.instructions.filterMap Instruction.marks?).Nodup)

variable {body : Body}

theorem marksHandler_iff {instruction : Instruction} :
    body.marksHandler instruction = true ↔
      ∃ range start stop handler, body.Places range start stop handler ∧
        instruction.marks? = some range.handler := by
  unfold marksHandler
  simp only [List.any_eq_true, Bool.and_eq_true, beq_iff_eq, Option.isSome_iff_exists]
  constructor
  · rintro ⟨range, present, ⟨⟨⟨start, start_eq⟩, stop, stop_eq⟩, handler, handler_eq⟩, marks⟩
    exact ⟨range, start, stop, handler, ⟨present, start_eq, stop_eq, handler_eq⟩, marks⟩
  · rintro ⟨range, start, stop, handler, places, marks⟩
    exact ⟨range, places.mem_ranges,
      ⟨⟨⟨start, places.start_eq⟩, stop, places.stop_eq⟩, handler, places.handler_eq⟩, marks⟩

/-- A label is marked at its position alone. -/
theorem PlacesLabelsOnce.position_eq
    (once : body.PlacesLabelsOnce)
    {label : Label}
    {position other : Nat}
    (marked : body.instructions[position]? = some (.mark label))
    (otherMarked : body.instructions[other]? = some (.mark label)) :
    position = other := by
  obtain ⟨inside, here⟩ := List.getElem?_eq_some_iff.mp marked
  obtain ⟨otherInside, there⟩ := List.getElem?_eq_some_iff.mp otherMarked
  have apart := List.pairwise_iff_getElem.mp (List.pairwise_filterMap.mp once)
  have clash : Instruction.marks? (.mark label) = some label := rfl
  rcases Nat.lt_trichotomy position other with less | same | less
  · have distinct := apart position other inside otherInside less
    rw [here, there] at distinct
    exact absurd rfl (distinct label clash label clash)
  · exact same
  · have distinct := apart other position otherInside inside less
    rw [here, there] at distinct
    exact absurd rfl (distinct label clash label clash)

/-- Deeper stacks stay at least as deep. -/
theorem depthBehind_mono
    {depth deeper : Nat}
    {instruction : Instruction}
    (le : body.marksHandler instruction = false → depth ≤ deeper) :
    body.depthBehind depth instruction ≤ body.depthBehind deeper instruction := by
  unfold depthBehind
  cases marks : body.marksHandler instruction with
  | true => exact Nat.le_refl 1
  | false =>
      have := le marks
      simp only [Bool.false_eq_true, if_false]
      omega

end Body

namespace FlowGraph

variable {body : Body} {index : Nat} {block : Block}

/-- An instruction of a block enters a handler if it marks one. -/
theorem entersHandler_eq
    (once : body.PlacesLabelsOnce)
    (found : (ofBody body).blocks[index]? = some block)
    {offset : Nat}
    {instruction : Instruction}
    (instruction_eq : block.instructions[offset]? = some instruction) :
    block.entersHandler instruction = body.marksHandler instruction := by
  have within := (List.getElem?_eq_some_iff.mp instruction_eq).1
  have at_position := (getElem?_instructions found within).symm.trans instruction_eq
  rw [Bool.eq_iff_iff, Body.marksHandler_iff]
  unfold Block.entersHandler
  cases marks : instruction.marks? with
  | none => simp
  | some label =>
      obtain rfl := Instruction.marks?_eq_some_iff.mp marks
      simp only [List.contains_iff_mem, mem_handlers_iff found]
      constructor
      · rintro ⟨range, start, stop, handler, places, _, same⟩
        exact ⟨range, start, stop, handler, places, congrArg some same.symm⟩
      · rintro ⟨range, start, stop, handler, places, same⟩
        obtain rfl := Option.some.inj same
        obtain rfl := once.position_eq at_position (Body.getElem?_of_positionOf? places.handler_eq)
        refine ⟨range, start, stop, _, places, ?_, rfl⟩
        exact blockContaining?_eq_some_iff.mpr
          ⟨block, found, Nat.le_add_right _ _, Nat.add_lt_add_left within _⟩

/-- A block and the machine agree on the depth behind an instruction. -/
theorem depthAfter_eq
    (once : body.PlacesLabelsOnce)
    (found : (ofBody body).blocks[index]? = some block)
    {offset : Nat}
    {instruction : Instruction}
    (instruction_eq : block.instructions[offset]? = some instruction)
    (depth : Nat) :
    block.depthAfter body.depthLimit depth instruction = body.depthBehind depth instruction := by
  unfold Block.depthAfter Body.depthBehind
  rw [entersHandler_eq once found instruction_eq]

theorem replay_succ_eq
    (once : body.PlacesLabelsOnce)
    (found : (ofBody body).blocks[index]? = some block)
    {offset : Nat}
    {instruction : Instruction}
    (instruction_eq : block.instructions[offset]? = some instruction)
    (depth : Nat) :
    block.replay body.depthLimit depth (offset + 1) =
      body.depthBehind (block.replay body.depthLimit depth offset) instruction := by
  rw [Block.replay_succ instruction_eq, depthAfter_eq once found instruction_eq]

/-- From the first position of a block the machine reaches all others with the depths
that are replayed. -/
theorem depthReached_replay
    (once : body.PlacesLabelsOnce)
    (found : (ofBody body).blocks[index]? = some block)
    {depth : Nat}
    (reached : body.DepthReached block.start depth)
    {offset : Nat}
    (inside : offset < block.instructions.length) :
    body.DepthReached (block.start + offset) (block.replay body.depthLimit depth offset) := by
  induction offset with
  | zero => exact reached
  | succ offset hypothesis =>
      have bounded := stop_le found
      have within : offset < block.instructions.length := by omega
      obtain ⟨instruction, instruction_eq, at_position⟩ := exists_instruction found within
      obtain ⟨falls, _⟩ := fallsThrough_inside found inside instruction_eq
      rw [replay_succ_eq once found instruction_eq]
      refine (hypothesis within).next at_position falls ?_
      simp only [Block.stop] at bounded
      omega

/-- All depths that are replayed in a block are met. -/
theorem replay_mem_depthsMet
    (once : body.PlacesLabelsOnce)
    (found : (ofBody body).blocks[index]? = some block)
    {depth : Nat}
    (reached : body.DepthReached block.start depth)
    {offset : Nat}
    (le : offset ≤ block.instructions.length) :
    block.replay body.depthLimit depth offset ∈ body.depthsMet := by
  have filled := List.length_pos_iff.mpr (instructions_ne_nil found)
  cases offset with
  | zero =>
      obtain ⟨instruction, _, at_position⟩ := exists_instruction found filled
      exact ⟨block.start, depth, instruction, reached, at_position, Or.inl rfl⟩
  | succ offset =>
      obtain ⟨instruction, instruction_eq, at_position⟩ :=
        exists_instruction found (Nat.lt_of_succ_le le)
      exact ⟨_, _, instruction, depthReached_replay once found reached (Nat.lt_of_succ_le le),
        at_position, Or.inr (replay_succ_eq once found instruction_eq depth)⟩

/-- The machine leaves a block along an edge with the depth that is passed on. -/
theorem depthReached_crosses
    (once : body.PlacesLabelsOnce)
    {edge : Edge}
    {target : Nat}
    {targetBlock : Block}
    (crosses : (ofBody body).Crosses index block edge target targetBlock)
    {depth : Nat}
    (reached : body.DepthReached block.start depth) :
    body.DepthReached targetBlock.start
      (DepthAnalysis.passed body.depthLimit block depth edge) := by
  have found := crosses.source_eq
  have filled := List.length_pos_iff.mpr (instructions_ne_nil found)
  cases edge with
  | exception types =>
      obtain ⟨range, start, stop, places, within, before⟩ := start_of_catches crosses.target_eq
        ((exception_mem_successors_iff found).mp ⟨types, crosses.mem_successors⟩)
      exact reached.throw places within before
  | normal =>
      obtain ⟨last, last_eq, leaves⟩ := start_of_goesTo found crosses.target_eq
        ((normal_mem_successors_iff found).mp crosses.mem_successors).1
      rw [List.getLast?_eq_getElem?] at last_eq
      have within := (List.getElem?_eq_some_iff.mp last_eq).1
      have at_last := depthReached_replay once found reached within
      have at_position := (getElem?_instructions found within).symm.trans last_eq
      have passed_eq : DepthAnalysis.passed body.depthLimit block depth .normal =
          body.depthBehind
            (block.replay body.depthLimit depth (block.instructions.length - 1)) last := by
        rw [← replay_succ_eq once found last_eq, Nat.sub_add_cancel filled]
        rfl
      rw [passed_eq]
      rcases leaves with ⟨label, jumps, placed⟩ | ⟨falls, start_eq⟩
      · exact at_last.jump at_position jumps placed
      · have behind : targetBlock.start = block.start + (block.instructions.length - 1) + 1 := by
          rw [start_eq, Block.stop]
          omega
        have bounded := stop_le crosses.target_eq
        have nonempty := List.length_pos_iff.mpr (instructions_ne_nil crosses.target_eq)
        rw [behind]
        refine at_last.next at_position falls ?_
        rw [← behind]
        simp only [Block.stop] at bounded
        omega

end FlowGraph
end StackMaps
