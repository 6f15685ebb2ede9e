import StackMaps.Proofs.Flow.Injecting

/-!
# The flow graph of a woven body

Labels that are put into a body are no targets. So the parts of the body stay the same but
for the labels in them, and control passes between them as before.
-/

namespace StackMaps

/-- A part of a body with the labels that are put into it. -/
def weavePart (label? : Nat → Option Label) (part : Nat × List Instruction) :
    Nat × List Instruction :=
  (front label? part.1, weave label? part.1 part.2)

section Parts

variable {label? : Nat → Option Label}

/-- A woven part ends where the label behind it would lie. -/
theorem stop_weavePart (part : Nat × List Instruction) :
    (weavePart label? part).1 + (weavePart label? part).2.length =
      front label? (part.1 + part.2.length) :=
  length_weave

theorem weave_ne_nil
    {position : Nat}
    {instructions : List Instruction}
    (filled : instructions ≠ []) :
    weave label? position instructions ≠ [] := by
  cases instructions with
  | nil => exact absurd rfl filled
  | cons instruction rest => simp [weave]

/-- No label is put behind the last instruction. -/
theorem getLast?_weave {position : Nat} {instructions : List Instruction} :
    (weave label? position instructions).getLast? = instructions.getLast? := by
  induction instructions generalizing position with
  | nil => rfl
  | cons instruction rest hypothesis =>
      rw [weave, List.getLast?_append, List.getLast?_cons, List.getLast?_cons, hypothesis]
      rfl

namespace FlowGraph

/-- If the leaders have moved like the labels in front of them, the parts are cut as
before. -/
theorem Cut.weave
    {leaders newLeaders : Array Bool}
    (leads : ∀ place, newLeaders.getD place false = true ↔
      ∃ position, place = front label? position ∧ leaders.getD position false = true)
    {start : Nat}
    {parts : List (Nat × List Instruction)}
    {instructions : List Instruction}
    (cut : Cut leaders start parts instructions) :
    Cut newLeaders (front label? start) (parts.map (weavePart label?))
      (StackMaps.weave label? start instructions) := by
  induction cut with
  | nil start => exact .nil _
  | @cons start run parts instructions nonempty inner led rest hypothesis =>
      rw [weave_append]
      have stop_eq := @length_weave label? start run
      refine .cons (weave_ne_nil nonempty) (fun offset positive less => ?_) (fun more => ?_) ?_
      · refine Bool.eq_false_iff.mpr fun leading => ?_
        obtain ⟨position, place_eq, leading⟩ := (leads _).mp leading
        have behind : start < position := (@front_strictMono label?).lt_iff_lt.mp (by omega)
        have before : position < start + run.length :=
          (@front_strictMono label?).lt_iff_lt.mp (by
            rw [← place_eq, ← stop_eq]
            exact Nat.add_lt_add_left less _)
        have unled := inner (position - start) (by omega) (by omega)
        rw [Nat.add_sub_cancel' (Nat.le_of_lt behind), leading] at unled
        cases unled
      · rw [stop_eq]
        exact (leads _).mpr ⟨_, rfl, led fun none_ => more (by rw [none_, List.map_nil])⟩
      · rw [stop_eq]
        exact hypothesis

/-- No leader lies inside of a part, so that it ends where another one with the same start
does. -/
theorem Cut.length_le
    {leaders : Array Bool}
    {start : Nat}
    {run otherRun rest otherRest : List Instruction}
    {parts : List (Nat × List Instruction)}
    (nonempty : run ≠ [])
    (led : parts ≠ [] → leaders.getD (start + run.length) false = true)
    (cut : Cut leaders (start + run.length) parts rest)
    (inner : ∀ offset, 0 < offset → offset < otherRun.length →
      leaders.getD (start + offset) false = false)
    (same : otherRun ++ otherRest = run ++ rest) :
    otherRun.length ≤ run.length := by
  refine Nat.le_of_not_lt fun shorter => ?_
  have lengths := congrArg List.length same
  simp only [List.length_append] at lengths
  have unled := inner run.length (List.length_pos_iff.mpr nonempty) shorter
  cases cut with
  | nil =>
      simp only [List.length_nil] at lengths
      omega
  | cons => exact absurd (led (List.cons_ne_nil _ _)) (by rw [unled]; decide)

/-- A list of instructions is cut in one way. -/
theorem Cut.unique
    {leaders : Array Bool}
    {start : Nat}
    {parts others : List (Nat × List Instruction)}
    {instructions : List Instruction}
    (cut : Cut leaders start parts instructions)
    (other : Cut leaders start others instructions) :
    parts = others := by
  obtain ⟨same, same_eq⟩ : ∃ same, same = instructions := ⟨_, rfl⟩
  rw [← same_eq] at other
  induction cut generalizing others same with
  | nil start =>
      cases other with
      | nil => rfl
      | cons nonempty => exact absurd (List.append_eq_nil_iff.mp same_eq).1 nonempty
  | @cons start run parts instructions nonempty inner led rest hypothesis =>
      cases other with
      | nil => exact absurd (List.append_eq_nil_iff.mp same_eq.symm).1 nonempty
      | @cons _ otherRun otherParts otherInstructions nonemptyToo innerToo ledToo restToo =>
          have length_eq : otherRun.length = run.length :=
            Nat.le_antisymm (Cut.length_le nonempty led rest innerToo same_eq)
              (Cut.length_le nonemptyToo ledToo restToo inner same_eq.symm)
          obtain ⟨rfl, rest_eq⟩ := List.append_inj same_eq length_eq
          rw [hypothesis _ restToo rest_eq]

end FlowGraph

end Parts

namespace FlowGraph

/-- A range whose positions have moved. -/
def PlacedRange.moveBy (onPosition : Nat → Nat) (range : PlacedRange) : PlacedRange :=
  { range with
    start := onPosition range.start
    stop := onPosition range.stop
    handler := onPosition range.handler }

end FlowGraph

namespace Block

/-- A block with the labels that are put into it. -/
def weave (label? : Nat → Option Label) (block : Block) : Block :=
  { block with
    start := front label? block.start
    instructions := StackMaps.weave label? block.start block.instructions }

@[simp] theorem hasExceptionEdge_weave (label? : Nat → Option Label) (block : Block) :
    (block.weave label?).hasExceptionEdge = block.hasExceptionEdge := rfl

@[simp] theorem entersHandler_weave
    (label? : Nat → Option Label)
    (block : Block)
    (instruction : Instruction) :
    (block.weave label?).entersHandler instruction = block.entersHandler instruction := rfl

end Block

namespace LabelPlan.Extends

open FlowGraph

variable {plan : LabelPlan} {body after : Body} (extends_ : plan.Extends body after)

include extends_

/-! ## Leaders -/

/-- A label of the body has moved like one that would be put in front of it. -/
theorem positionOf?_eq_some_iff
    {label : Label}
    (known : label.id < body.nextLabel.id)
    {place : Nat} :
    after.positionOf? label = some place ↔
      ∃ position, body.positionOf? label = some position ∧
        front plan.injected? position = place := by
  rw [extends_.distinctMarks.positionOf?_eq_some_iff]
  simp only [extends_.distinct.positionOf?_eq_some_iff]
  refine extends_.marksAt_iff.trans ⟨?_, ?_⟩
  · rintro (⟨position, rfl, marked⟩ | ⟨position, _, injected⟩)
    · exact ⟨position, marked,
        (moved_of_none (extends_.injected?_eq_none_of_marksAt marked)).symm⟩
    · have fresh := (extends_.of_injected? injected).2.1
      omega
  · rintro ⟨position, marked, rfl⟩
    exact Or.inl ⟨position,
      (moved_of_none (extends_.injected?_eq_none_of_marksAt marked)).symm, marked⟩

theorem positionOf?_eq
    {label : Label}
    (known : label.id < body.nextLabel.id) :
    after.positionOf? label = (body.positionOf? label).map (front plan.injected?) := by
  refine Option.ext fun place => ?_
  rw [extends_.positionOf?_eq_some_iff known, Option.map_eq_some_iff]

theorem length_instructions :
    after.instructions.length = front plan.injected? body.instructions.length := by
  rw [extends_.instructions_eq_weave, length_weave_zero]

/-- What is not a mark is an instruction of the body that has moved. -/
theorem exists_of_getElem?
    {place : Nat}
    {instruction : Instruction}
    (found : after.instructions[place]? = some instruction)
    (real : instruction.isMark = false) :
    ∃ position, place = moved plan.injected? position ∧
      body.instructions[position]? = some instruction := by
  rw [extends_.instructions_eq_weave, getElem?_weave_eq_some_iff] at found
  obtain ⟨position, _, moves | ⟨_, label, _, rfl⟩⟩ := found
  · exact ⟨position, moves⟩
  · cases real

/-- The instructions make blocks begin where they did. -/
theorem instructionLeads_iff {place : Nat} :
    (∃ before instruction, after.instructions[before]? = some instruction ∧
        ((∃ label ∈ instruction.jumpTargets, after.positionOf? label = some place) ∨
          (instruction.endsBlock = true ∧ place = before + 1))) ↔
      ∃ position, place = front plan.injected? position ∧
        ∃ before instruction, body.instructions[before]? = some instruction ∧
          ((∃ label ∈ instruction.jumpTargets, body.positionOf? label = some position) ∨
            (instruction.endsBlock = true ∧ position = before + 1)) := by
  constructor
  · rintro ⟨before, instruction, found, leads⟩
    have real : instruction.isMark = false := by
      rcases leads with ⟨label, jumps, _⟩ | ⟨ends, _⟩
      · cases instruction <;> first | rfl | exact absurd jumps List.not_mem_nil
      · cases instruction <;> first | rfl | cases ends
    obtain ⟨position, rfl, here⟩ := extends_.exists_of_getElem? found real
    rcases leads with ⟨label, jumps, placed⟩ | ⟨ends, rfl⟩
    · have known : label.id < body.nextLabel.id :=
        extends_.ahead.of_mem_instructions (List.mem_of_getElem? here)
          (List.mem_append_right _ jumps)
      obtain ⟨target, before, rfl⟩ := (extends_.positionOf?_eq_some_iff known).mp placed
      exact ⟨target, rfl, position, instruction, here, Or.inl ⟨label, jumps, before⟩⟩
    · exact ⟨position + 1, front_succ.symm, position, instruction, here, Or.inr ⟨ends, rfl⟩⟩
  · rintro ⟨target, rfl, position, instruction, found, leads⟩
    refine ⟨_, instruction, (extends_.getElem?_moved position).trans found, ?_⟩
    rcases leads with ⟨label, jumps, placed⟩ | ⟨ends, rfl⟩
    · have known : label.id < body.nextLabel.id :=
        extends_.ahead.of_mem_instructions (List.mem_of_getElem? found)
          (List.mem_append_right _ jumps)
      exact Or.inl ⟨label, jumps,
        (extends_.positionOf?_eq_some_iff known).mpr ⟨target, placed, rfl⟩⟩
    · exact Or.inr ⟨ends, front_succ⟩

/-- The ranges make blocks begin where they did. -/
theorem rangeLeads_iff {range : ExceptionRange} (present : range ∈ body.ranges) {place : Nat} :
    (after.positionOf? range.start = some place ∨ after.positionOf? range.stop = some place ∨
        after.positionOf? range.handler = some place ∨
        ∃ start, after.positionOf? range.start = some start ∧ place = start + 1) ↔
      ∃ position, place = front plan.injected? position ∧
        (body.positionOf? range.start = some position ∨
          body.positionOf? range.stop = some position ∨
          body.positionOf? range.handler = some position ∨
          ∃ start, body.positionOf? range.start = some start ∧ position = start + 1) := by
  have known : ∀ label ∈ range.labels, label.id < body.nextLabel.id :=
    fun label occurs => extends_.ahead.of_mem_ranges present occurs
  simp only [ExceptionRange.labels, List.forall_mem_cons] at known
  obtain ⟨startKnown, stopKnown, handlerKnown, _⟩ := known
  have behind : ∀ {start}, body.positionOf? range.start = some start →
      front plan.injected? start + 1 = front plan.injected? (start + 1) := by
    intro start placed
    have marked : body.MarksAt range.start start := Body.getElem?_of_positionOf? placed
    rw [front_succ, moved_of_none (extends_.injected?_eq_none_of_marksAt marked)]
  simp only [extends_.positionOf?_eq_some_iff startKnown,
    extends_.positionOf?_eq_some_iff stopKnown, extends_.positionOf?_eq_some_iff handlerKnown]
  constructor
  · rintro (⟨position, placed, rfl⟩ | ⟨position, placed, rfl⟩ | ⟨position, placed, rfl⟩ |
      ⟨_, ⟨start, placed, rfl⟩, rfl⟩)
    · exact ⟨position, rfl, Or.inl placed⟩
    · exact ⟨position, rfl, Or.inr (Or.inl placed)⟩
    · exact ⟨position, rfl, Or.inr (Or.inr (Or.inl placed))⟩
    · exact ⟨start + 1, behind placed, Or.inr (Or.inr (Or.inr ⟨start, placed, rfl⟩))⟩
  · rintro ⟨position, rfl, placed | placed | placed | ⟨start, placed, rfl⟩⟩
    · exact Or.inl ⟨position, placed, rfl⟩
    · exact Or.inr (Or.inl ⟨position, placed, rfl⟩)
    · exact Or.inr (Or.inr (Or.inl ⟨position, placed, rfl⟩))
    · exact Or.inr (Or.inr (Or.inr ⟨_, ⟨start, placed, rfl⟩, (behind placed).symm⟩))

/-- The leaders have moved like the labels in front of them. -/
theorem leads_iff {place : Nat} :
    (leadersOf after).getD place false = true ↔
      ∃ position, place = front plan.injected? position ∧
        (leadersOf body).getD position false = true := by
  simp only [getD_leadersOf]
  rw [extends_.instructionLeads_iff, extends_.ranges_eq, extends_.length_instructions]
  constructor
  · rintro ⟨less, ⟨position, rfl, leads⟩ | ⟨range, present, leads⟩⟩
    · exact ⟨position, rfl, front_strictMono.lt_iff_lt.mp less, Or.inl leads⟩
    · obtain ⟨position, rfl, before⟩ := (extends_.rangeLeads_iff present).mp leads
      exact ⟨position, rfl, front_strictMono.lt_iff_lt.mp less, Or.inr ⟨range, present, before⟩⟩
  · rintro ⟨position, rfl, less, leads | ⟨range, present, leads⟩⟩
    · exact ⟨front_strictMono less, Or.inl ⟨position, rfl, leads⟩⟩
    · exact ⟨front_strictMono less,
        Or.inr ⟨range, present, (extends_.rangeLeads_iff present).mpr ⟨position, rfl, leads⟩⟩⟩

/-! ## Parts and blocks -/

/-- The parts are those of the body with the labels that have been put there. -/
theorem partsOf_eq : partsOf after = (partsOf body).map (weavePart plan.injected?) := by
  have cut := (cut_partsOf body).weave fun _ => extends_.leads_iff
  rw [front_zero, ← extends_.instructions_eq_weave] at cut
  exact (cut_partsOf after).unique cut

/-- What was at a position belongs to the same part. -/
theorem getElem?_segmentOf (position : Nat) :
    (segmentOf (partsOf after))[front plan.injected? position]? =
      (segmentOf (partsOf body))[position]? := by
  refine Option.ext fun index => ?_
  rw [FlowGraph.getElem?_segmentOf (cut_partsOf after),
    FlowGraph.getElem?_segmentOf (cut_partsOf body), extends_.partsOf_eq]
  simp only [List.getElem?_map, Option.map_eq_some_iff]
  constructor
  · rintro ⟨_, ⟨part, found, rfl⟩, covers, covered⟩
    rw [stop_weavePart] at covered
    exact ⟨part, found, front_strictMono.le_iff_le.mp covers, front_strictMono.lt_iff_lt.mp covered⟩
  · rintro ⟨part, found, covers, covered⟩
    refine ⟨_, ⟨part, found, rfl⟩, front_strictMono.le_iff_le.mpr covers, ?_⟩
    rw [stop_weavePart]
    exact front_strictMono covered

/-- The ranges are those of the body, and their positions have moved. -/
theorem rangesOf_eq :
    rangesOf after = (rangesOf body).map (PlacedRange.moveBy (front plan.injected?)) := by
  unfold rangesOf placedRanges
  rw [List.map_filterMap, extends_.ranges_eq]
  refine List.filterMap_congr fun range present => ?_
  have known : ∀ label ∈ range.labels, label.id < body.nextLabel.id :=
    fun label occurs => extends_.ahead.of_mem_ranges present occurs
  simp only [ExceptionRange.labels, List.forall_mem_cons] at known
  obtain ⟨startKnown, stopKnown, handlerKnown, _⟩ := known
  simp only [getElem?_labelPositions, extends_.positionOf?_eq startKnown,
    extends_.positionOf?_eq stopKnown, extends_.positionOf?_eq handlerKnown]
  cases body.positionOf? range.start <;> cases body.positionOf? range.stop <;>
    cases body.positionOf? range.handler <;> rfl

theorem targetPositions_eq
    {instruction : Instruction}
    (present : instruction ∈ body.instructions) :
    targetPositions (labelPositions after.instructions) instruction =
      (targetPositions (labelPositions body.instructions) instruction).map
        (front plan.injected?) := by
  unfold targetPositions
  rw [List.map_filterMap]
  refine List.filterMap_congr fun label jumps => ?_
  rw [getElem?_labelPositions, getElem?_labelPositions]
  exact extends_.positionOf?_eq
    (extends_.ahead.of_mem_instructions present (List.mem_append_right _ jumps))

/-- A part is left for the same blocks as before. -/
theorem normalExits_eq
    {part : Nat × List Instruction}
    (within : ∀ instruction ∈ part.2, instruction ∈ body.instructions) :
    normalExits (labelPositions after.instructions) (segmentOf (partsOf after))
        (weavePart plan.injected? part) =
      normalExits (labelPositions body.instructions) (segmentOf (partsOf body)) part := by
  have last_eq : (weavePart plan.injected? part).2.getLast? = part.2.getLast? := getLast?_weave
  unfold normalExits
  rw [last_eq]
  cases last : part.2.getLast? with
  | none => rfl
  | some instruction =>
      have present := within instruction (List.mem_of_getLast? last)
      dsimp only
      rw [extends_.targetPositions_eq present, List.filterMap_map, stop_weavePart,
        extends_.getElem?_segmentOf]
      congr 2
      funext target
      exact extends_.getElem?_segmentOf target

theorem exceptionExits_eq (start : Nat) :
    exceptionExits (segmentOf (partsOf after)) (rangesOf after)
        (front plan.injected? start) =
      exceptionExits (segmentOf (partsOf body)) (rangesOf body) start := by
  unfold exceptionExits
  rw [extends_.rangesOf_eq, List.filterMap_map]
  congr 1
  funext range
  simp only [Function.comp_apply, PlacedRange.moveBy, Array.getD_eq_getD_getElem?,
    extends_.getElem?_segmentOf, front_strictMono.le_iff_le, front_strictMono.lt_iff_lt]

theorem handlersIn_eq (index : Nat) :
    handlersIn (segmentOf (partsOf after)) (rangesOf after) index =
      handlersIn (segmentOf (partsOf body)) (rangesOf body) index := by
  unfold handlersIn
  simp only [extends_.rangesOf_eq, List.filterMap_map, Function.comp_def, PlacedRange.moveBy,
    extends_.getElem?_segmentOf]

/-- An instruction of the body jumps to a position if it does so to the new one. -/
theorem mem_targetPositions_iff
    {instruction : Instruction}
    (present : instruction ∈ body.instructions)
    (position : Nat) :
    front plan.injected? position ∈
        targetPositions (labelPositions after.instructions) instruction ↔
      position ∈ targetPositions (labelPositions body.instructions) instruction := by
  rw [extends_.targetPositions_eq present]
  exact List.mem_map_of_injective front_strictMono.injective

theorem exists_jumps_iff (position : Nat) :
    (∃ instruction ∈ after.instructions, front plan.injected? position ∈
        targetPositions (labelPositions after.instructions) instruction) ↔
      ∃ instruction ∈ body.instructions,
        position ∈ targetPositions (labelPositions body.instructions) instruction := by
  constructor
  · rintro ⟨instruction, present, jumps⟩
    have real : instruction.isMark = false := by
      cases instruction <;> first | rfl | exact absurd jumps List.not_mem_nil
    obtain ⟨place, found⟩ := List.getElem?_of_mem present
    obtain ⟨_, _, here⟩ := extends_.exists_of_getElem? found real
    have within := List.mem_of_getElem? here
    exact ⟨instruction, within, (extends_.mem_targetPositions_iff within position).mp jumps⟩
  · rintro ⟨instruction, within, jumps⟩
    obtain ⟨place, found⟩ := List.getElem?_of_mem within
    exact ⟨instruction, List.mem_of_getElem? ((extends_.getElem?_moved place).trans found),
      (extends_.mem_targetPositions_iff within position).mpr jumps⟩

/-- What was jumped to still is, at its new position. -/
theorem getD_jumpedToOf (position : Nat) :
    (jumpedToOf after).getD (front plan.injected? position) false =
      (jumpedToOf body).getD position false := by
  have handlers : front plan.injected? position ∈ (rangesOf after).map (·.handler) ↔
      position ∈ (rangesOf body).map (·.handler) := by
    rw [extends_.rangesOf_eq, List.map_map]
    simp only [List.mem_map, Function.comp_apply, PlacedRange.moveBy,
      front_strictMono.injective.eq_iff]
  refine Bool.eq_iff_iff.mpr ?_
  unfold jumpedToOf
  rw [getD_flagged, getD_flagged, List.mem_append, List.mem_append, List.mem_flatMap,
    List.mem_flatMap, extends_.exists_jumps_iff, handlers, extends_.length_instructions,
    front_strictMono.lt_iff_lt]

/-- The blocks are those of the body with the labels that have been put there. -/
theorem getElem?_blocks (index : Nat) :
    (FlowGraph.ofBody after).blocks[index]? =
      ((FlowGraph.ofBody body).blocks[index]?).map (Block.weave plan.injected?) := by
  rw [getElem?_blocks_ofBody, getElem?_blocks_ofBody, extends_.partsOf_eq, List.getElem?_map]
  cases found : (partsOf body)[index]? with
  | none => rfl
  | some part =>
      have within : ∀ instruction ∈ part.2, instruction ∈ body.instructions := by
        have block_eq :
            (FlowGraph.ofBody body).blocks[index]? = some (blockOfPart body index part) := by
          rw [getElem?_blocks_ofBody, found, Option.map_some]
        exact fun instruction present => mem_instructions block_eq present
      simp only [Option.map_some, Option.some.injEq, blockOfPart, Block.weave,
        extends_.normalExits_eq within, extends_.handlersIn_eq]
      rw [show (weavePart plan.injected? part).1 = front plan.injected? part.1 from rfl,
        extends_.exceptionExits_eq, extends_.getD_jumpedToOf]
      rfl

theorem blocks_eq :
    (FlowGraph.ofBody after).blocks =
      (FlowGraph.ofBody body).blocks.map (Block.weave plan.injected?) :=
  Array.ext_getElem? fun index => by rw [extends_.getElem?_blocks, Array.getElem?_map]

theorem size_blocks :
    (FlowGraph.ofBody after).blocks.size = (FlowGraph.ofBody body).blocks.size := by
  rw [extends_.blocks_eq, Array.size_map]

end LabelPlan.Extends

end StackMaps
