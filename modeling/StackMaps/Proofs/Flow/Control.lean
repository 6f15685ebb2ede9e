import StackMaps.Flow.Session
import StackMaps.Proofs.Flow.Analysis
import StackMaps.Proofs.Flow.Partition

/-!
# Control between the blocks of a body

The flow graph of a body in terms of positions. Blocks cover the body without a
gap, begin at every leader and are left only behind their last instruction. Their
edges are the jumps of that instruction, its going on, and the placed ranges that
cover the block, which take precedence.
-/

namespace StackMaps

/-- Only a mark marks a label. -/
theorem Instruction.marks?_eq_some_iff
    {instruction : Instruction}
    {label : Label} :
    instruction.marks? = some label ↔ instruction = .mark label := by
  cases instruction <;> simp [marks?]

namespace Body

/-- A range of the body all labels of which are placed, with their positions. -/
structure Places
    (body : Body)
    (range : ExceptionRange)
    (start stop handler : Nat) : Prop where
  mem_ranges : range ∈ body.ranges
  start_eq : body.positionOf? range.start = some start
  stop_eq : body.positionOf? range.stop = some stop
  handler_eq : body.positionOf? range.handler = some handler

/-- The instruction at the position of a label marks it. -/
theorem getElem?_of_positionOf?
    {body : Body}
    {label : Label}
    {position : Nat}
    (placed : body.positionOf? label = some position) :
    body.instructions[position]? = some (.mark label) := by
  obtain ⟨inside, marks, _⟩ := List.findIdx?_eq_some_iff_getElem.mp placed
  rw [List.getElem?_eq_getElem inside]
  exact congrArg some (Instruction.marks?_eq_some_iff.mp (beq_iff_eq.mp marks))

theorem lt_of_positionOf?
    {body : Body}
    {label : Label}
    {position : Nat}
    (placed : body.positionOf? label = some position) :
    position < body.instructions.length :=
  (List.getElem?_eq_some_iff.mp (getElem?_of_positionOf? placed)).1

end Body

namespace FlowGraph

/-- The flags of the positions at which blocks of a body begin. -/
def leadersOf (body : Body) : Array Bool :=
  let positions := labelPositions body.instructions
  flagged body.instructions.length
    (instructionLeaders positions body.instructions ++ rangeLeaders positions body.ranges)

/-- The parts of a body from which its blocks are made. -/
def partsOf (body : Body) : List (Nat × List Instruction) :=
  segments (leadersOf body) body.instructions

/-- The ranges of a body all labels of which are placed. -/
def rangesOf (body : Body) : List PlacedRange :=
  placedRanges (labelPositions body.instructions) body.ranges

/-- The positions of a body to which control jumps. -/
def jumpedToOf (body : Body) : Array Bool :=
  flagged body.instructions.length
    (body.instructions.flatMap (targetPositions (labelPositions body.instructions)) ++
      (rangesOf body).map (·.handler))

/-- The block that is made from a part. -/
def blockOfPart (body : Body) (index : Nat) (part : Nat × List Instruction) : Block :=
  { start := part.1
    instructions := part.2
    successors :=
      edges (normalExits (labelPositions body.instructions) (segmentOf (partsOf body)) part)
        (exceptionExits (segmentOf (partsOf body)) (rangesOf body) part.1)
    handlers := handlersIn (segmentOf (partsOf body)) (rangesOf body) index
    needsFrame := (jumpedToOf body).getD part.1 false }

theorem blockOf_ofBody (body : Body) : (ofBody body).blockOf = segmentOf (partsOf body) := rfl

/-- Every block is made from the part with its number. -/
theorem getElem?_blocks_ofBody (body : Body) (index : Nat) :
    (ofBody body).blocks[index]? = (partsOf body)[index]?.map (blockOfPart body index) := by
  have blocks_eq : (ofBody body).blocks =
      ((partsOf body).zipIdx.map fun entry => blockOfPart body entry.2 entry.1).toArray := rfl
  rw [blocks_eq, List.getElem?_toArray, List.getElem?_map, List.getElem?_zipIdx]
  cases (partsOf body)[index]? <;> simp

theorem cut_partsOf (body : Body) :
    Cut (leadersOf body) 0 (partsOf body) body.instructions :=
  cut_segments _ _

/-- The placed ranges are those of the body with positions for their labels. -/
theorem mem_rangesOf {body : Body} {placed : PlacedRange} :
    placed ∈ rangesOf body ↔
      ∃ range, body.Places range placed.start placed.stop placed.handler ∧
        placed.label = range.handler ∧
        placed.catchType = range.catchType.getD .throwable := by
  unfold rangesOf placedRanges
  rw [List.mem_filterMap]
  simp only [getElem?_labelPositions]
  constructor
  · rintro ⟨range, present, found⟩
    split at found
    next start stop handler start_eq stop_eq handler_eq =>
        rw [Option.some.injEq] at found
        subst found
        exact ⟨range, ⟨present, start_eq, stop_eq, handler_eq⟩, rfl, rfl⟩
    next => simp at found
  · rintro ⟨range, places, label_eq, catch_eq⟩
    refine ⟨range, places.mem_ranges, ?_⟩
    rw [places.start_eq, places.stop_eq, places.handler_eq]
    obtain ⟨start, stop, handler, label, catchType⟩ := placed
    simp only at label_eq catch_eq
    simp [label_eq, catch_eq]

/-- A table of positions does not evaluate, but the search that it stands for does. -/
theorem targetPositions_labelPositions (body : Body) :
    targetPositions (labelPositions body.instructions) =
      fun instruction => instruction.jumpTargets.filterMap body.positionOf? := by
  funext instruction
  exact congrArg (List.filterMap · instruction.jumpTargets) (funext (getElem?_labelPositions body))

/-- The positions to which an instruction may jump are those of its labels. -/
theorem mem_targetPositions {body : Body} {instruction : Instruction} {target : Nat} :
    target ∈ targetPositions (labelPositions body.instructions) instruction ↔
      ∃ label ∈ instruction.jumpTargets, body.positionOf? label = some target := by
  rw [targetPositions_labelPositions, List.mem_filterMap]

/-! ## Leaders -/

section Leaders

variable {body : Body} {position : Nat}

/-- A position leads if it is a target, follows an instruction that closes a block,
belongs to a label of a range, or stands behind the first label of one. -/
theorem getD_leadersOf :
    (leadersOf body).getD position false = true ↔
      position < body.instructions.length ∧
        ((∃ before instruction, body.instructions[before]? = some instruction ∧
            ((∃ label ∈ instruction.jumpTargets, body.positionOf? label = some position) ∨
              (instruction.endsBlock = true ∧ position = before + 1))) ∨
          ∃ range ∈ body.ranges,
            body.positionOf? range.start = some position ∨
              body.positionOf? range.stop = some position ∨
              body.positionOf? range.handler = some position ∨
              ∃ start, body.positionOf? range.start = some start ∧ position = start + 1) := by
  unfold leadersOf
  rw [getD_flagged, List.mem_append, and_comm]
  refine and_congr_right fun _ => or_congr ?_ ?_
  · unfold instructionLeaders
    simp only [List.mem_flatMap, List.mem_append, mem_targetPositions, Prod.exists,
      List.mk_mem_zipIdx_iff_getElem?]
    constructor
    · rintro ⟨instruction, before, found, jumps | closes⟩
      · exact ⟨before, instruction, found, Or.inl jumps⟩
      · split at closes
        next ends => exact ⟨before, instruction, found, Or.inr ⟨ends, by simpa using closes⟩⟩
        next => simp at closes
    · rintro ⟨before, instruction, found, jumps | ⟨ends, rfl⟩⟩
      · exact ⟨instruction, before, found, Or.inl jumps⟩
      · exact ⟨instruction, before, found, Or.inr (by simp [ends])⟩
  · unfold rangeLeaders
    simp only [List.mem_flatMap, List.mem_append, List.mem_filterMap, getElem?_labelPositions,
      List.mem_cons, List.not_mem_nil, or_false]
    refine exists_congr fun range => and_congr_right fun _ => ?_
    constructor
    · rintro (⟨label, rfl | rfl | rfl, placed⟩ | behind)
      · exact Or.inl placed
      · exact Or.inr (Or.inl placed)
      · exact Or.inr (Or.inr (Or.inl placed))
      · split at behind
        next start placed =>
            exact Or.inr (Or.inr (Or.inr ⟨start, placed, by simpa using behind⟩))
        next => simp at behind
    · rintro (placed | placed | placed | ⟨start, placed, rfl⟩)
      · exact Or.inl ⟨range.start, Or.inl rfl, placed⟩
      · exact Or.inl ⟨range.stop, Or.inr (Or.inl rfl), placed⟩
      · exact Or.inl ⟨range.handler, Or.inr (Or.inr rfl), placed⟩
      · exact Or.inr (by simp [placed])

/-- The target of a jump leads. -/
theorem leads_of_mem_jumpTargets
    {before : Nat}
    {instruction : Instruction}
    {label : Label}
    (found : body.instructions[before]? = some instruction)
    (jumps : label ∈ instruction.jumpTargets)
    (placed : body.positionOf? label = some position) :
    (leadersOf body).getD position false = true :=
  getD_leadersOf.mpr ⟨Body.lt_of_positionOf? placed,
    Or.inl ⟨before, instruction, found, Or.inl ⟨label, jumps, placed⟩⟩⟩

/-- What stands behind an instruction that closes a block leads. -/
theorem leads_of_endsBlock
    {instruction : Instruction}
    (found : body.instructions[position]? = some instruction)
    (ends : instruction.endsBlock = true)
    (inside : position + 1 < body.instructions.length) :
    (leadersOf body).getD (position + 1) false = true :=
  getD_leadersOf.mpr ⟨inside, Or.inl ⟨position, instruction, found, Or.inr ⟨ends, rfl⟩⟩⟩

variable {range : ExceptionRange} {start stop handler : Nat}

/-- The labels of a placed range lead. -/
theorem leads_of_places (places : body.Places range start stop handler) :
    (leadersOf body).getD start false = true ∧
      (leadersOf body).getD stop false = true ∧
      (leadersOf body).getD handler false = true := by
  refine ⟨getD_leadersOf.mpr ⟨Body.lt_of_positionOf? places.start_eq, Or.inr ?_⟩,
    getD_leadersOf.mpr ⟨Body.lt_of_positionOf? places.stop_eq, Or.inr ?_⟩,
    getD_leadersOf.mpr ⟨Body.lt_of_positionOf? places.handler_eq, Or.inr ?_⟩⟩
  · exact ⟨range, places.mem_ranges, Or.inl places.start_eq⟩
  · exact ⟨range, places.mem_ranges, Or.inr (Or.inl places.stop_eq)⟩
  · exact ⟨range, places.mem_ranges, Or.inr (Or.inr (Or.inl places.handler_eq))⟩

end Leaders

/-! ## Blocks -/

section Blocks

variable {body : Body} {index : Nat} {block : Block}

/-- A block and the part from which it is made. -/
theorem exists_part (found : (ofBody body).blocks[index]? = some block) :
    ∃ part, (partsOf body)[index]? = some part ∧ block = blockOfPart body index part := by
  rw [getElem?_blocks_ofBody, Option.map_eq_some_iff] at found
  obtain ⟨part, part_eq, made⟩ := found
  exact ⟨part, part_eq, made.symm⟩

/-- The number of instructions of a block is positive. -/
theorem instructions_ne_nil (found : (ofBody body).blocks[index]? = some block) :
    block.instructions ≠ [] := by
  obtain ⟨part, part_eq, rfl⟩ := exists_part found
  exact ((cut_partsOf body).of_getElem? part_eq).2.2.1

/-- A block ends within the body. -/
theorem stop_le (found : (ofBody body).blocks[index]? = some block) :
    block.stop ≤ body.instructions.length := by
  obtain ⟨part, part_eq, rfl⟩ := exists_part found
  simpa [Block.stop, blockOfPart] using ((cut_partsOf body).of_getElem? part_eq).2.1

/-- A block holds the instructions of the body at its positions. -/
theorem getElem?_instructions
    (found : (ofBody body).blocks[index]? = some block)
    {offset : Nat}
    (less : offset < block.instructions.length) :
    block.instructions[offset]? = body.instructions[block.start + offset]? := by
  obtain ⟨part, part_eq, rfl⟩ := exists_part found
  simpa [blockOfPart] using ((cut_partsOf body).of_getElem? part_eq).2.2.2.1 offset less

theorem exists_instruction
    (found : (ofBody body).blocks[index]? = some block)
    {offset : Nat}
    (less : offset < block.instructions.length) :
    ∃ instruction, block.instructions[offset]? = some instruction ∧
      body.instructions[block.start + offset]? = some instruction :=
  ⟨_, List.getElem?_eq_getElem less,
    (getElem?_instructions found less).symm.trans (List.getElem?_eq_getElem less)⟩

/-- No position inside a block leads. -/
theorem not_leads_inside
    (found : (ofBody body).blocks[index]? = some block)
    {offset : Nat}
    (positive : 0 < offset)
    (less : offset < block.instructions.length) :
    (leadersOf body).getD (block.start + offset) false = false := by
  obtain ⟨part, part_eq, rfl⟩ := exists_part found
  exact ((cut_partsOf body).of_getElem? part_eq).2.2.2.2 offset positive less

/-- The block that is noted for a position is the one that covers it. -/
theorem blockContaining?_eq_some_iff {position : Nat} :
    (ofBody body).blockContaining? position = some index ↔
      ∃ block, (ofBody body).blocks[index]? = some block ∧
        block.start ≤ position ∧ position < block.stop := by
  rw [blockContaining?, blockOf_ofBody, getElem?_segmentOf (cut_partsOf body)]
  constructor
  · rintro ⟨part, part_eq, covers, covered⟩
    refine ⟨blockOfPart body index part, ?_, covers, covered⟩
    rw [getElem?_blocks_ofBody, part_eq, Option.map_some]
  · rintro ⟨block, found, covers, covered⟩
    obtain ⟨part, part_eq, rfl⟩ := exists_part found
    exact ⟨part, part_eq, covers, covered⟩

/-- The block that is noted for a position of the body. -/
theorem blockContaining?_eq_getD {position : Nat} (inside : position < body.instructions.length) :
    (ofBody body).blockContaining? position =
      some ((segmentOf (partsOf body)).getD position 0) := by
  have noted : position < (segmentOf (partsOf body)).size := by
    rw [size_segmentOf (cut_partsOf body)]
    exact inside
  simp [blockContaining?, blockOf_ofBody, Array.getD, noted]

/-- Every position of the body is covered by a block. -/
theorem exists_block_covering {position : Nat} (inside : position < body.instructions.length) :
    ∃ index block, (ofBody body).blockContaining? position = some index ∧
      (ofBody body).blocks[index]? = some block ∧
      block.start ≤ position ∧ position < block.stop := by
  have noted : position < (ofBody body).blockOf.size := by
    rw [blockOf_ofBody, size_segmentOf (cut_partsOf body)]
    exact inside
  have contained : (ofBody body).blockContaining? position =
      some (ofBody body).blockOf[position] := Array.getElem?_eq_getElem noted
  obtain ⟨block, found, covers, covered⟩ := blockContaining?_eq_some_iff.mp contained
  exact ⟨_, block, contained, found, covers, covered⟩

/-- A body with instructions has blocks. -/
theorem size_blocks_pos (filled : body.instructions ≠ []) : 0 < (ofBody body).blocks.size := by
  obtain ⟨index, block, _, found, _⟩ := exists_block_covering (List.length_pos_iff.mpr filled)
  exact Nat.zero_lt_of_lt (Array.getElem?_eq_some_iff.mp found).1

theorem isEmpty_blocks (empty : body.instructions = []) :
    (ofBody body).blocks.isEmpty = true := by
  obtain ⟨instructions, ranges, maxStack, maxLocals, frames, nextLabel⟩ := body
  obtain rfl : instructions = [] := empty
  rfl

/-- The instructions of a block are instructions of the body. -/
theorem mem_instructions
    (found : (ofBody body).blocks[index]? = some block)
    {instruction : Instruction}
    (present : instruction ∈ block.instructions) :
    instruction ∈ body.instructions := by
  obtain ⟨offset, instruction_eq⟩ := List.getElem?_of_mem present
  rw [getElem?_instructions found (List.getElem?_eq_some_iff.mp instruction_eq).1]
    at instruction_eq
  exact List.mem_of_getElem? instruction_eq

/-- A leader is the first position of the block that covers it. -/
theorem start_eq_of_leads
    (found : (ofBody body).blocks[index]? = some block)
    {position : Nat}
    (covers : block.start ≤ position)
    (covered : position < block.stop)
    (leads : (leadersOf body).getD position false = true) :
    block.start = position := by
  apply Decidable.byContradiction
  intro later
  have within : position - block.start < block.instructions.length := by
    simp only [Block.stop] at covered
    omega
  have inside := not_leads_inside found (by omega) within
  rw [show block.start + (position - block.start) = position by omega, leads] at inside
  exact absurd inside (by decide)

/-- No two blocks cover the same position. -/
theorem index_eq_of_covers
    {other : Nat}
    {otherBlock : Block}
    {position : Nat}
    (found : (ofBody body).blocks[index]? = some block)
    (covers : block.start ≤ position)
    (covered : position < block.stop)
    (otherFound : (ofBody body).blocks[other]? = some otherBlock)
    (otherCovers : otherBlock.start ≤ position)
    (otherCovered : position < otherBlock.stop) :
    index = other := by
  have noted := blockContaining?_eq_some_iff.mpr ⟨block, found, covers, covered⟩
  have otherNoted :=
    blockContaining?_eq_some_iff.mpr ⟨otherBlock, otherFound, otherCovers, otherCovered⟩
  exact Option.some.inj (noted.symm.trans otherNoted)

/-- The entry of the body is the entry of its first block. -/
theorem start_of_first (found : (ofBody body).blocks[0]? = some block) : block.start = 0 := by
  obtain ⟨part, part_eq, rfl⟩ := exists_part found
  simpa [blockOfPart] using (cut_partsOf body).start_eq part_eq

/-- A block begins where the one before it ends. -/
theorem start_eq_stop
    {next : Block}
    (found : (ofBody body).blocks[index]? = some block)
    (nextFound : (ofBody body).blocks[index + 1]? = some next) :
    next.start = block.stop := by
  obtain ⟨part, part_eq, rfl⟩ := exists_part found
  obtain ⟨nextPart, nextPart_eq, rfl⟩ := exists_part nextFound
  have start_eq := (cut_partsOf body).start_eq nextPart_eq
  simpa [blockOfPart, Block.stop, part_eq] using start_eq

/-- A block that covers the position behind another one begins there. -/
theorem start_eq_of_covers_stop
    {other : Nat}
    {next : Block}
    (found : (ofBody body).blocks[index]? = some block)
    (nextFound : (ofBody body).blocks[other]? = some next)
    (covers : next.start ≤ block.stop)
    (covered : block.stop < next.stop) :
    next.start = block.stop := by
  apply Decidable.byContradiction
  intro earlier
  have filled := List.length_pos_iff.mpr (instructions_ne_nil found)
  have last : block.start ≤ block.stop - 1 ∧ block.stop - 1 < block.stop := by
    simp only [Block.stop]
    omega
  obtain rfl := index_eq_of_covers found last.1 last.2 nextFound (by omega) (by omega)
  obtain rfl := Option.some.inj (found.symm.trans nextFound)
  omega

/-- A block that does not end the body has a next one. -/
theorem exists_next
    (found : (ofBody body).blocks[index]? = some block)
    (inside : block.stop < body.instructions.length) :
    ∃ next, (ofBody body).blocks[index + 1]? = some next := by
  obtain ⟨other, next, _, nextFound, covers, covered⟩ := exists_block_covering inside
  have begins := start_eq_of_covers_stop found nextFound covers covered
  have filled := List.length_pos_iff.mpr (instructions_ne_nil found)
  cases other with
  | zero =>
      have := start_of_first nextFound
      simp only [Block.stop] at begins
      omega
  | succ before =>
      have less := (Array.getElem?_eq_some_iff.mp nextFound).1
      have beforeFound := Array.getElem?_eq_getElem (Nat.lt_of_succ_lt less)
      have joined := start_eq_stop beforeFound nextFound
      have beforeFilled := List.length_pos_iff.mpr (instructions_ne_nil beforeFound)
      have last : block.start ≤ block.stop - 1 ∧ block.stop - 1 < block.stop := by
        simp only [Block.stop]
        omega
      have lastBefore : (ofBody body).blocks[before].start ≤ block.stop - 1 ∧
          block.stop - 1 < (ofBody body).blocks[before].stop := by
        simp only [Block.stop] at begins joined ⊢
        omega
      obtain rfl := index_eq_of_covers beforeFound lastBefore.1 lastBefore.2 found last.1 last.2
      exact ⟨next, nextFound⟩

/-- Blocks lie behind each other. -/
theorem stop_le_start
    {other : Nat}
    {otherBlock : Block}
    (less : index < other)
    (found : (ofBody body).blocks[index]? = some block)
    (otherFound : (ofBody body).blocks[other]? = some otherBlock) :
    block.stop ≤ otherBlock.start := by
  induction less generalizing otherBlock with
  | refl => exact Nat.le_of_eq (start_eq_stop found otherFound).symm
  | @step before _ hypothesis =>
      have inside := (Array.getElem?_eq_some_iff.mp otherFound).1
      have beforeFound := Array.getElem?_eq_getElem (Nat.lt_of_succ_lt inside)
      rw [start_eq_stop beforeFound otherFound]
      exact Nat.le_trans (hypothesis beforeFound) (Nat.le_add_right _ _)

/-- Only the last instruction of a block may close it. -/
theorem endsBlock_inside
    (found : (ofBody body).blocks[index]? = some block)
    {offset : Nat}
    {instruction : Instruction}
    (inside : offset + 1 < block.instructions.length)
    (instruction_eq : block.instructions[offset]? = some instruction) :
    instruction.endsBlock = false := by
  have bounded := stop_le found
  rw [getElem?_instructions found (by omega)] at instruction_eq
  cases ends : instruction.endsBlock with
  | false => rfl
  | true =>
      have leads := leads_of_endsBlock instruction_eq ends
        (by simp only [Block.stop] at bounded; omega)
      have unled := not_leads_inside found (Nat.succ_pos offset) inside
      rw [show block.start + offset.succ = block.start + offset + 1 by omega, leads] at unled
      exact absurd unled (by decide)

/-- Control stays in a block up to its last instruction. -/
theorem fallsThrough_inside
    (found : (ofBody body).blocks[index]? = some block)
    {offset : Nat}
    {instruction : Instruction}
    (inside : offset + 1 < block.instructions.length)
    (instruction_eq : block.instructions[offset]? = some instruction) :
    instruction.fallsThrough = true ∧ instruction.jumpTargets = [] := by
  have closes := endsBlock_inside found inside instruction_eq
  cases instruction <;>
    simp_all [Instruction.endsBlock, Instruction.fallsThrough, Instruction.jumpTargets]

/-- An instruction that jumps or does not fall through is the last one of its block. -/
theorem offset_eq_of_leaves
    (found : (ofBody body).blocks[index]? = some block)
    {offset : Nat}
    {instruction : Instruction}
    (instruction_eq : block.instructions[offset]? = some instruction)
    (leaves : instruction.fallsThrough = false ∨ instruction.jumpTargets ≠ []) :
    offset + 1 = block.instructions.length := by
  have within := (List.getElem?_eq_some_iff.mp instruction_eq).1
  apply Decidable.byContradiction
  intro inside
  obtain ⟨falls, silent⟩ := fallsThrough_inside found (by omega) instruction_eq
  rcases leaves with stays | jumps
  · exact absurd (falls.symm.trans stays) (by decide)
  · exact jumps silent

/-- A placed range that covers a position of a block covers the whole block. -/
theorem covers_start_of_places
    (found : (ofBody body).blocks[index]? = some block)
    {position start stop handler : Nat}
    {range : ExceptionRange}
    (places : body.Places range start stop handler)
    (covers : block.start ≤ position)
    (covered : position < block.stop)
    (within : start ≤ position)
    (before : position < stop) :
    start ≤ block.start ∧ block.start < stop := by
  refine ⟨?_, by omega⟩
  apply Decidable.byContradiction
  intro later
  have begins := start_eq_of_leads found (by omega : block.start ≤ start) (by omega)
    (leads_of_places places).1
  omega

end Blocks

/-! ## Edges -/

/-- No types are thrown to a block to which no exception leads. -/
theorem isEmpty_types_iff
    {exceptions : List (Nat × BinaryName)}
    {target : Nat} :
    ((exceptions.filter (·.1 == target)).map (·.2)).isEmpty = true ↔
      ¬∃ type, (target, type) ∈ exceptions := by
  rw [List.isEmpty_iff, List.map_eq_nil_iff, List.filter_eq_nil_iff]
  simp only [beq_iff_eq, Prod.forall, not_exists]
  constructor
  · intro unthrown type thrown
    exact unthrown target type thrown rfl
  · rintro unthrown reached type thrown rfl
    exact unthrown type thrown

/-- An edge to a block comes from its being an exit. Exceptions take precedence, with
their types once each. -/
theorem mem_edges
    {normal : List Nat}
    {exceptions : List (Nat × BinaryName)}
    {target : Nat}
    {edge : Edge} :
    (target, edge) ∈ edges normal exceptions ↔
      (target ∈ normal ∨ ∃ type, (target, type) ∈ exceptions) ∧
        edge =
          if ((exceptions.filter (·.1 == target)).map (·.2)).isEmpty then .normal
          else .exception ((exceptions.filter (·.1 == target)).map (·.2)).eraseDups := by
  unfold edges
  rw [List.mem_map]
  constructor
  · rintro ⟨number, present, pair_eq⟩
    obtain ⟨rfl, rfl⟩ := Prod.mk.inj pair_eq
    rw [mem_ascending, List.mem_append, List.mem_map] at present
    refine ⟨present.imp_right ?_, rfl⟩
    rintro ⟨⟨reached, type⟩, thrown, rfl⟩
    exact ⟨type, thrown⟩
  · rintro ⟨present, rfl⟩
    refine ⟨target, ?_, rfl⟩
    rw [mem_ascending, List.mem_append, List.mem_map]
    exact present.imp_right fun ⟨type, thrown⟩ => ⟨(target, type), thrown, rfl⟩

/-- An edge is one by exception if some exception leads to its target. -/
theorem exception_mem_edges_iff
    {normal : List Nat}
    {exceptions : List (Nat × BinaryName)}
    {target : Nat} :
    (∃ types, (target, Edge.exception types) ∈ edges normal exceptions) ↔
      ∃ type, (target, type) ∈ exceptions := by
  have empty_iff := @isEmpty_types_iff exceptions target
  simp only [mem_edges]
  constructor
  · rintro ⟨types, _, edge_eq⟩
    split at edge_eq
    · simp at edge_eq
    next filled => exact Classical.not_not.mp (mt empty_iff.mpr filled)
  · intro thrown
    have filled := mt empty_iff.mp (Classical.not_not.mpr thrown)
    exact ⟨_, Or.inr thrown, by rw [if_neg filled]⟩

/-- An edge is a normal one if no exception leads to its target. -/
theorem normal_mem_edges_iff
    {normal : List Nat}
    {exceptions : List (Nat × BinaryName)}
    {target : Nat} :
    (target, Edge.normal) ∈ edges normal exceptions ↔
      target ∈ normal ∧ ¬∃ type, (target, type) ∈ exceptions := by
  have empty_iff := @isEmpty_types_iff exceptions target
  simp only [mem_edges]
  constructor
  · rintro ⟨present, edge_eq⟩
    split at edge_eq
    next empty =>
        have unthrown := empty_iff.mp empty
        exact ⟨present.resolve_right unthrown, unthrown⟩
    · simp at edge_eq
  · rintro ⟨present, unthrown⟩
    exact ⟨Or.inl present, by rw [if_pos (empty_iff.mpr unthrown)]⟩

section Edges

variable {body : Body} {index target : Nat} {block : Block}

/-- A placed range that covers a position has its handler in a block. -/
def Catches (body : Body) (position target : Nat) : Prop :=
  ∃ range start stop handler, body.Places range start stop handler ∧
    start ≤ position ∧ position < stop ∧
    (ofBody body).blockContaining? handler = some target

/-- The last instruction of a block jumps into another block or goes on to it. -/
def GoesTo (body : Body) (block : Block) (target : Nat) : Prop :=
  ∃ last, block.instructions.getLast? = some last ∧
    ((∃ label ∈ last.jumpTargets, ∃ position,
        body.positionOf? label = some position ∧
          (ofBody body).blockContaining? position = some target) ∨
      (last.fallsThrough = true ∧ (ofBody body).blockContaining? block.stop = some target))

/-- The exits by exceptions are the handlers of the placed ranges that cover the first
position of the block. -/
theorem mem_exceptionExits {start : Nat} {type : BinaryName} :
    (target, type) ∈ exceptionExits (segmentOf (partsOf body)) (rangesOf body) start ↔
      ∃ range first last handler, body.Places range first last handler ∧
        first ≤ start ∧ start < last ∧
        (ofBody body).blockContaining? handler = some target ∧
        type = range.catchType.getD .throwable := by
  unfold exceptionExits
  rw [List.mem_filterMap]
  constructor
  · rintro ⟨⟨first, last, handler, label, catchType⟩, present, exit⟩
    obtain ⟨range, places, _, catch_eq⟩ := mem_rangesOf.mp present
    split at exit
    next covers =>
        obtain ⟨rfl, rfl⟩ := Prod.mk.inj (Option.some.inj exit)
        simp only [Bool.and_eq_true, decide_eq_true_eq] at covers
        exact ⟨range, first, last, handler, places, covers.1, covers.2,
          blockContaining?_eq_getD (Body.lt_of_positionOf? places.handler_eq), catch_eq⟩
    next => simp at exit
  · rintro ⟨range, first, last, handler, places, covers, covered, noted, rfl⟩
    refine ⟨⟨first, last, handler, range.handler, range.catchType.getD .throwable⟩,
      mem_rangesOf.mpr ⟨range, places, rfl, rfl⟩, ?_⟩
    rw [blockContaining?_eq_getD (Body.lt_of_positionOf? places.handler_eq), Option.some.injEq]
      at noted
    simp [covers, covered, noted]

/-- The normal exits of a block are those of its last instruction. -/
theorem mem_normalExits
    {part : Nat × List Instruction}
    (made : block = blockOfPart body index part) :
    target ∈ normalExits (labelPositions body.instructions) (segmentOf (partsOf body)) part ↔
      GoesTo body block target := by
  subst made
  unfold normalExits GoesTo
  simp only [blockOfPart, Block.stop, blockContaining?, blockOf_ofBody]
  cases part.2.getLast? with
  | none => simp
  | some last =>
      simp only [List.mem_append, List.mem_filterMap, mem_targetPositions, Option.some.injEq,
        exists_eq_left']
      refine or_congr ?_ ?_
      · constructor
        · rintro ⟨position, ⟨label, jumps, placed⟩, noted⟩
          exact ⟨label, jumps, position, placed, noted⟩
        · rintro ⟨label, jumps, position, placed, noted⟩
          exact ⟨position, ⟨label, jumps, placed⟩, noted⟩
      · cases last.fallsThrough <;> simp

/-- An edge by exception leads to the handlers of the ranges that cover the block. -/
theorem exception_mem_successors_iff
    (found : (ofBody body).blocks[index]? = some block) :
    (∃ types, (target, Edge.exception types) ∈ block.successors) ↔
      Catches body block.start target := by
  obtain ⟨part, part_eq, rfl⟩ := exists_part found
  simp only [blockOfPart, exception_mem_edges_iff, mem_exceptionExits, Catches]
  constructor
  · rintro ⟨_, range, first, last, handler, places, covers, covered, noted, _⟩
    exact ⟨range, first, last, handler, places, covers, covered, noted⟩
  · rintro ⟨range, first, last, handler, places, covers, covered, noted⟩
    exact ⟨_, range, first, last, handler, places, covers, covered, noted, rfl⟩

/-- A normal edge is a normal exit to a block that catches nothing of this one. -/
theorem normal_mem_successors_iff
    (found : (ofBody body).blocks[index]? = some block) :
    (target, Edge.normal) ∈ block.successors ↔
      GoesTo body block target ∧ ¬Catches body block.start target := by
  rw [← exception_mem_successors_iff found]
  obtain ⟨part, part_eq, rfl⟩ := exists_part found
  rw [← mem_normalExits rfl]
  simp only [blockOfPart, exception_mem_edges_iff, normal_mem_edges_iff]

/-- Every successor is reached by a jump, by going on or by an exception. -/
theorem goesTo_or_catches_of_mem_successors
    (found : (ofBody body).blocks[index]? = some block)
    {edge : Edge}
    (present : (target, edge) ∈ block.successors) :
    GoesTo body block target ∨ Catches body block.start target := by
  cases edge with
  | normal => exact Or.inl ((normal_mem_successors_iff found).mp present).1
  | exception types => exact Or.inr ((exception_mem_successors_iff found).mp ⟨types, present⟩)

/-- Control enters a block at its first position. -/
theorem start_of_goesTo
    {target : Nat}
    {targetBlock : Block}
    (found : (ofBody body).blocks[index]? = some block)
    (targetFound : (ofBody body).blocks[target]? = some targetBlock)
    (goes : GoesTo body block target) :
    ∃ last, block.instructions.getLast? = some last ∧
      ((∃ label ∈ last.jumpTargets, body.positionOf? label = some targetBlock.start) ∨
        (last.fallsThrough = true ∧ targetBlock.start = block.stop)) := by
  obtain ⟨last, last_eq, ⟨label, jumps, position, placed, noted⟩ | ⟨falls, noted⟩⟩ := goes
  · obtain ⟨same, same_eq, covers, covered⟩ := blockContaining?_eq_some_iff.mp noted
    obtain rfl := Option.some.inj (targetFound.symm.trans same_eq)
    rw [List.getLast?_eq_getElem?] at last_eq
    have bound := (List.getElem?_eq_some_iff.mp last_eq).1
    have leads := leads_of_mem_jumpTargets
      ((getElem?_instructions found bound).symm.trans last_eq) jumps placed
    refine ⟨last, by rw [List.getLast?_eq_getElem?, last_eq], Or.inl ⟨label, jumps, ?_⟩⟩
    rw [placed, start_eq_of_leads targetFound covers covered leads]
  · obtain ⟨same, same_eq, covers, covered⟩ := blockContaining?_eq_some_iff.mp noted
    obtain rfl := Option.some.inj (targetFound.symm.trans same_eq)
    exact ⟨last, last_eq,
      Or.inr ⟨falls, start_eq_of_covers_stop found targetFound covers covered⟩⟩

/-- An exception enters the block of a handler at its first position. -/
theorem start_of_catches
    {position target : Nat}
    {targetBlock : Block}
    (targetFound : (ofBody body).blocks[target]? = some targetBlock)
    (catches : Catches body position target) :
    ∃ range start stop, body.Places range start stop targetBlock.start ∧
      start ≤ position ∧ position < stop := by
  obtain ⟨range, start, stop, handler, places, within, before, noted⟩ := catches
  obtain ⟨same, same_eq, covers, covered⟩ := blockContaining?_eq_some_iff.mp noted
  obtain rfl := Option.some.inj (targetFound.symm.trans same_eq)
  rw [← start_eq_of_leads targetFound covers covered (leads_of_places places).2.2] at places
  exact ⟨range, start, stop, places, within, before⟩

/-- What the last instruction goes to is a successor. -/
theorem exists_edge_of_goesTo
    (found : (ofBody body).blocks[index]? = some block)
    (goes : GoesTo body block target) :
    ∃ edge, (target, edge) ∈ block.successors := by
  by_cases catches : Catches body block.start target
  · obtain ⟨types, present⟩ := (exception_mem_successors_iff found).mpr catches
    exact ⟨_, present⟩
  · exact ⟨_, (normal_mem_successors_iff found).mpr ⟨goes, catches⟩⟩

/-- Every edge leads to a block. -/
theorem closed_ofBody (body : Body) : (ofBody body).Closed := by
  intro index block found successor present
  have noted : ∃ position, (ofBody body).blockContaining? position = some successor.1 := by
    rcases goesTo_or_catches_of_mem_successors found present with
      ⟨_, _, ⟨_, _, position, _, noted⟩ | ⟨_, noted⟩⟩ | ⟨_, _, _, handler, _, _, _, noted⟩
    · exact ⟨position, noted⟩
    · exact ⟨block.stop, noted⟩
    · exact ⟨handler, noted⟩
  obtain ⟨position, contained⟩ := noted
  obtain ⟨target, target_eq, _⟩ := blockContaining?_eq_some_iff.mp contained
  exact (Array.getElem?_eq_some_iff.mp target_eq).1

end Edges

/-! ## Handlers and frames -/

section Handlers

variable {body : Body} {index : Nat} {block : Block} {label : Label}

/-- The handlers in a block are those of the placed ranges whose handler it covers. -/
theorem mem_handlers_iff
    (found : (ofBody body).blocks[index]? = some block) :
    label ∈ block.handlers ↔
      ∃ range start stop handler, body.Places range start stop handler ∧
        (ofBody body).blockContaining? handler = some index ∧ range.handler = label := by
  obtain ⟨part, part_eq, rfl⟩ := exists_part found
  simp only [blockOfPart, handlersIn, List.mem_map, mem_ascending, List.mem_filterMap,
    blockContaining?, blockOf_ofBody]
  constructor
  · rintro ⟨number, ⟨⟨start, stop, handler, placed, catchType⟩, present, here⟩, rfl⟩
    obtain ⟨range, places, label_eq, _⟩ := mem_rangesOf.mp present
    simp only [Option.ite_none_right_eq_some, Option.some.injEq] at here
    obtain ⟨noted, rfl⟩ := here
    exact ⟨range, start, stop, handler, places, noted, label_eq.symm⟩
  · rintro ⟨range, start, stop, handler, places, noted, rfl⟩
    exact ⟨range.handler.id,
      ⟨⟨start, stop, handler, range.handler, range.catchType.getD .throwable⟩,
        mem_rangesOf.mpr ⟨range, places, rfl, rfl⟩, by simp [noted]⟩, rfl⟩

/-- A block that catches something has a handler. -/
theorem handlers_ne_nil_of_catches
    {position : Nat}
    (found : (ofBody body).blocks[index]? = some block)
    (catches : Catches body position index) :
    block.handlers ≠ [] := by
  obtain ⟨range, start, stop, handler, places, _, _, noted⟩ := catches
  intro none_
  have present := (mem_handlers_iff found).mpr ⟨range, start, stop, handler, places, noted, rfl⟩
  rw [none_] at present
  exact absurd present List.not_mem_nil

/-- An exception leads to a block with a handler. -/
theorem Crosses.handlers_ne_nil
    {body : Body}
    {index target : Nat}
    {block targetBlock : Block}
    {types : List BinaryName}
    (crosses : (ofBody body).Crosses index block (.exception types) target targetBlock) :
    targetBlock.handlers ≠ [] :=
  handlers_ne_nil_of_catches crosses.target_eq
    ((exception_mem_successors_iff crosses.source_eq).mp ⟨types, crosses.mem_successors⟩)

/-- A block with a handler begins with the mark of a handler. -/
theorem first_of_handlers_ne_nil
    (found : (ofBody body).blocks[index]? = some block)
    (handles : block.handlers ≠ []) :
    ∃ label ∈ block.handlers, block.instructions[0]? = some (.mark label) := by
  obtain ⟨label, present⟩ := List.exists_mem_of_ne_nil _ handles
  obtain ⟨range, start, stop, handler, places, noted, rfl⟩ := (mem_handlers_iff found).mp present
  obtain ⟨same, same_eq, covers, covered⟩ := blockContaining?_eq_some_iff.mp noted
  obtain rfl := Option.some.inj (found.symm.trans same_eq)
  have begins := start_eq_of_leads found covers covered (leads_of_places places).2.2
  have marked := Body.getElem?_of_positionOf? places.handler_eq
  refine ⟨range.handler, present, ?_⟩
  have filled : 0 < block.instructions.length :=
    List.length_pos_iff.mpr (instructions_ne_nil found)
  rw [getElem?_instructions found filled, Nat.add_zero, begins, marked]

/-- A block needs a frame if control jumps to its first position. -/
theorem needsFrame_iff
    (found : (ofBody body).blocks[index]? = some block) :
    block.needsFrame = true ↔
      (∃ instruction ∈ body.instructions, ∃ label ∈ instruction.jumpTargets,
          body.positionOf? label = some block.start) ∨
        ∃ range start stop, body.Places range start stop block.start := by
  have bounded := stop_le found
  have filled : 0 < block.instructions.length :=
    List.length_pos_iff.mpr (instructions_ne_nil found)
  have inside : block.start < body.instructions.length := by
    simp only [Block.stop] at bounded
    omega
  obtain ⟨part, part_eq, rfl⟩ := exists_part found
  rw [show (blockOfPart body index part).needsFrame =
    (jumpedToOf body).getD (blockOfPart body index part).start false from rfl]
  rw [jumpedToOf, getD_flagged, List.mem_append, List.mem_flatMap, List.mem_map,
    and_iff_left inside]
  simp only [mem_targetPositions]
  refine or_congr Iff.rfl ?_
  constructor
  · rintro ⟨placed, present, handler_eq⟩
    obtain ⟨range, places, _⟩ := mem_rangesOf.mp present
    exact ⟨range, placed.start, placed.stop, handler_eq ▸ places⟩
  · rintro ⟨range, start, stop, places⟩
    exact ⟨⟨start, stop, _, range.handler, range.catchType.getD .throwable⟩,
      mem_rangesOf.mpr ⟨range, places, rfl, rfl⟩, rfl⟩

end Handlers

end FlowGraph

namespace Session

theorem size_notes_ofBody (body : Body) :
    (ofBody body).notes.size = (FlowGraph.ofBody body).blocks.size := by
  simp [ofBody]

/-- A new session has nothing to wipe. -/
theorem map_wipe_notes_ofBody (body : Body) :
    (ofBody body).notes.map Notes.wipe = (ofBody body).notes := by
  rw [FlowGraph.map_wipe]
  simp [ofBody]

end Session

end StackMaps
