import Mathlib.Data.List.Basic
import StackMaps.Proofs.Flow.Control

/-!
# The control flow of a body

What a flow graph has to be in order to hold the control flow of a body is said here
in terms of the positions of the body alone: where blocks begin, which of them is
noted for a position, and which edges lead from one to another. The flow graph that
is built for a body holds exactly that. In particular a protected range covers a block
as a whole or not at all, since blocks begin at both of its ends.
-/

namespace StackMaps

/-- The class of exceptions that a range catches. Without one it catches everything
that can be thrown. -/
def ExceptionRange.caught (range : ExceptionRange) : BinaryName :=
  range.catchType.getD .throwable

/-- The instructions that pass control to somewhere else: branches, switches, returns,
throws and returns from subroutines. -/
inductive Instruction.IsTransfer : Instruction → Prop
  | branch (opcode : Opcode) (target : Label) : IsTransfer (.branch opcode target)
  | lookupSwitch (fallback : Label) (targets : List (Int32 × Label)) :
      IsTransfer (.lookupSwitch fallback targets)
  | tableSwitch (fallback : Label) (low : Int32) (targets : List Label) :
      IsTransfer (.tableSwitch fallback low targets)
  | leave
      {opcode : Opcode}
      (leaves : opcode ∈ [.ireturn, .lreturn, .freturn, .dreturn, .areturn, .returnVoid, .athrow]) :
      IsTransfer (.simple opcode)
  | ret (index : UInt16) : IsTransfer (.var .ret index)

theorem Instruction.IsTransfer.endsBlock
    {instruction : Instruction}
    (transfers : instruction.IsTransfer) :
    instruction.endsBlock = true := by
  cases transfers with
  | branch | lookupSwitch | tableSwitch | ret => rfl
  | leave leaves =>
      simp only [List.mem_cons, List.not_mem_nil, or_false] at leaves
      rcases leaves with rfl | rfl | rfl | rfl | rfl | rfl | rfl <;> rfl

/-- A position of a block. -/
def Block.Covers (block : Block) (position : Nat) : Prop :=
  block.start ≤ position ∧ position < block.stop

namespace Body

variable {body : Body}

/-- A position of the body that is the target of a jump. -/
def JumpsTo (body : Body) (position : Nat) : Prop :=
  ∃ instruction ∈ body.instructions, ∃ label ∈ instruction.jumpTargets,
    body.positionOf? label = some position

/-- The positions at which blocks begin. -/
inductive Leads (body : Body) : Nat → Prop
  | entry : Leads body 0
  | target {position : Nat} (jumps : body.JumpsTo position) : Leads body position
  | behind
      {position : Nat}
      {instruction : Instruction}
      (found : body.instructions[position]? = some instruction)
      (ends : instruction.endsBlock = true) :
      Leads body (position + 1)
  | bound
      {range : ExceptionRange}
      {label : Label}
      {position : Nat}
      (listed : range ∈ body.ranges)
      (names : label ∈ [range.start, range.stop, range.handler])
      (placed : body.positionOf? label = some position) :
      Leads body position
  | guarded
      {range : ExceptionRange}
      {start : Nat}
      (listed : range ∈ body.ranges)
      (placed : body.positionOf? range.start = some start) :
      Leads body (start + 1)

/-- The flags that are raised behind the entry are those of the leaders. -/
theorem leads_iff {position : Nat} (inside : position < body.instructions.length) :
    body.Leads position ↔
      position = 0 ∨ (FlowGraph.leadersOf body).getD position false = true := by
  rw [FlowGraph.getD_leadersOf, and_iff_right inside]
  constructor
  · rintro (_ | ⟨instruction, present, jumps⟩ | ⟨found, ends⟩ | ⟨listed, names, placed⟩ |
      ⟨listed, placed⟩)
    · exact Or.inl rfl
    · obtain ⟨before, found⟩ := List.getElem?_of_mem present
      exact Or.inr (Or.inl ⟨before, instruction, found, Or.inl jumps⟩)
    · exact Or.inr (Or.inl ⟨_, _, found, Or.inr ⟨ends, rfl⟩⟩)
    · simp only [List.mem_cons, List.not_mem_nil, or_false] at names
      refine Or.inr (Or.inr ⟨_, listed, ?_⟩)
      rcases names with rfl | rfl | rfl
      · exact Or.inl placed
      · exact Or.inr (Or.inl placed)
      · exact Or.inr (Or.inr (Or.inl placed))
    · exact Or.inr (Or.inr ⟨_, listed, Or.inr (Or.inr (Or.inr ⟨_, placed, rfl⟩))⟩)
  · rintro (rfl | ⟨before, instruction, found, jumps | ⟨ends, rfl⟩⟩ |
      ⟨range, listed, placed | placed | placed | ⟨start, placed, rfl⟩⟩)
    · exact .entry
    · exact .target ⟨instruction, List.mem_of_getElem? found, jumps⟩
    · exact .behind found ends
    · exact .bound listed List.mem_cons_self placed
    · exact .bound listed (List.mem_cons_of_mem _ List.mem_cons_self) placed
    · exact .bound listed
        (List.mem_cons_of_mem _ (List.mem_cons_of_mem _ List.mem_cons_self)) placed
    · exact .guarded listed placed

end Body

namespace FlowGraph

/-! ## What a flow graph holds -/

/-- The blocks of a graph cut a body into runs of instructions, in front of its leaders
and nowhere else. -/
structure Partitions (graph : FlowGraph) (body : Body) : Prop where
  instructions_ne_nil : ∀ block ∈ graph.blocks, block.instructions ≠ []
  flatMap_instructions : graph.blocks.toList.flatMap Block.instructions = body.instructions
  start_entry : ∀ block ∈ graph.blocks[0]?, block.start = 0
  start_next : ∀ (index : Nat) (block next : Block),
    graph.blocks[index]? = some block → graph.blocks[index + 1]? = some next →
      next.start = block.stop
  isSome_blockContaining? : ∀ position,
    (graph.blockContaining? position).isSome = true ↔ position < body.instructions.length
  blockContaining? : ∀ position index, graph.blockContaining? position = some index ↔
    ∃ block, graph.blocks[index]? = some block ∧ block.Covers position
  begins : ∀ position < body.instructions.length,
    (∃ block ∈ graph.blocks, block.start = position) ↔ body.Leads position
  closes : ∀ block ∈ graph.blocks, ∀ (offset : Nat) (instruction : Instruction),
    block.instructions[offset]? = some instruction → instruction.IsTransfer →
      offset + 1 = block.instructions.length

/-- Does a range protect a position of a block, and does its handler lie in another one?
All of its labels have to be placed. -/
def guards
    (graph : FlowGraph)
    (body : Body)
    (block : Block)
    (target : Nat)
    (range : ExceptionRange) : Bool :=
  match body.positionOf? range.start, body.positionOf? range.stop,
      body.positionOf? range.handler with
  | some start, some stop, some handler =>
      graph.blockContaining? handler == some target &&
        (List.range' block.start block.instructions.length).any fun position =>
          start ≤ position && position < stop
  | _, _, _ => false

/-- The classes of exceptions that lead from one block to another, in the order of the
ranges. -/
def thrown (graph : FlowGraph) (body : Body) (block : Block) (target : Nat) : List BinaryName :=
  (body.ranges.filter (graph.guards body block target)).map ExceptionRange.caught

/-- The edges of a graph are the ways in which control passes between its blocks: from
the last instruction of a block, or from all of it to the handler of a range. -/
structure Connects (graph : FlowGraph) (body : Body) : Prop where
  exception_iff : ∀ block ∈ graph.blocks, ∀ (target : Nat) (type : BinaryName),
    (∃ types, (target, Edge.exception types) ∈ block.successors ∧ type ∈ types) ↔
      ∃ range start stop handler, body.Places range start stop handler ∧
        graph.blockContaining? handler = some target ∧ range.caught = type ∧
        ∃ position, block.Covers position ∧ start ≤ position ∧ position < stop
  covers_block : ∀ block ∈ graph.blocks, ∀ (range : ExceptionRange) (start stop handler : Nat),
    body.Places range start stop handler →
      (∃ position, block.Covers position ∧ start ≤ position ∧ position < stop) →
        ∀ position, block.Covers position → start ≤ position ∧ position < stop
  types_eq : ∀ block ∈ graph.blocks, ∀ (target : Nat) (types : List BinaryName),
    (target, Edge.exception types) ∈ block.successors →
      types = (graph.thrown body block target).eraseDups ∧ types.Nodup ∧ types ≠ []
  normal_iff : ∀ block ∈ graph.blocks, ∀ target,
    (target, Edge.normal) ∈ block.successors ↔
      (∃ last targetBlock, block.instructions.getLast? = some last ∧
        graph.blocks[target]? = some targetBlock ∧
        ((∃ label ∈ last.jumpTargets, body.positionOf? label = some targetBlock.start) ∨
          (last.fallsThrough = true ∧ targetBlock.start = block.stop))) ∧
      ¬∃ types, (target, Edge.exception types) ∈ block.successors
  edge_unique : ∀ block ∈ graph.blocks, ∀ (target : Nat) (edge other : Edge),
    (target, edge) ∈ block.successors → (target, other) ∈ block.successors → edge = other
  needsFrame_iff : ∀ block ∈ graph.blocks,
    block.needsFrame = true ↔
      body.JumpsTo block.start ∨ ∃ range start stop, body.Places range start stop block.start

/-- A flow graph is the control flow of a body. -/
structure HoldsControlFlow (graph : FlowGraph) (body : Body) : Prop
    extends graph.Partitions body, graph.Connects body

/-! ## Cutting a body -/

/-- The parts of a body make it up. -/
theorem Cut.flatMap_eq
    {leaders : Array Bool}
    {start : Nat}
    {parts : List (Nat × List Instruction)}
    {instructions : List Instruction}
    (cut : Cut leaders start parts instructions) :
    parts.flatMap (·.2) = instructions := by
  induction cut with
  | nil => rfl
  | cons _ _ _ _ hypothesis => rw [List.flatMap_cons, hypothesis]

variable {body : Body} {index target position : Nat} {block : Block}

theorem flatMap_instructions (body : Body) :
    (ofBody body).blocks.toList.flatMap Block.instructions = body.instructions := by
  have blocks_eq : (ofBody body).blocks.toList =
      (partsOf body).zipIdx.map fun entry => blockOfPart body entry.2 entry.1 := rfl
  have unzipped : ∀ parts : List (Nat × List Instruction),
      parts.zipIdx.flatMap (fun entry => entry.1.2) = parts.flatMap (·.2) := by
    intro parts
    rw [← List.flatMap_map Prod.fst fun part : Nat × List Instruction => part.2,
      List.zipIdx_map_fst]
  rw [blocks_eq, List.flatMap_map]
  exact (unzipped _).trans (cut_partsOf body).flatMap_eq

theorem covers_start (found : (ofBody body).blocks[index]? = some block) :
    block.Covers block.start := by
  have filled := List.length_pos_iff.mpr (instructions_ne_nil found)
  exact ⟨Nat.le_refl _, Nat.lt_add_of_pos_right filled⟩

/-- A block that is not the first one begins at a leader. -/
theorem leads_start
    (found : (ofBody body).blocks[index]? = some block)
    (later : index ≠ 0) :
    (leadersOf body).getD block.start false = true := by
  obtain ⟨part, part_eq, rfl⟩ := exists_part found
  exact (cut_partsOf body).leads_of_pos part_eq (Nat.pos_of_ne_zero later)

/-- Blocks begin at the leaders and nowhere else. -/
theorem exists_start_eq_iff (inside : position < body.instructions.length) :
    (∃ block ∈ (ofBody body).blocks, block.start = position) ↔ body.Leads position := by
  rw [Body.leads_iff inside]
  constructor
  · rintro ⟨block, present, rfl⟩
    obtain ⟨index, found⟩ := Array.getElem?_of_mem present
    by_cases first : index = 0
    · subst first
      exact Or.inl (start_of_first found)
    · exact Or.inr (leads_start found first)
  · intro leads
    obtain ⟨index, block, _, found, covers, covered⟩ := exists_block_covering inside
    refine ⟨block, Array.mem_of_getElem? found, ?_⟩
    rcases leads with rfl | leads
    · exact Nat.le_zero.mp covers
    · exact start_eq_of_leads found covers covered leads

theorem partitions_ofBody (body : Body) : (ofBody body).Partitions body where
  instructions_ne_nil block present := by
    obtain ⟨index, found⟩ := Array.getElem?_of_mem present
    exact instructions_ne_nil found
  flatMap_instructions := flatMap_instructions body
  start_entry _ found := start_of_first found
  start_next _ _ _ found nextFound := start_eq_stop found nextFound
  isSome_blockContaining? position := by
    rw [FlowGraph.blockContaining?, blockOf_ofBody, isSome_getElem?,
      size_segmentOf (cut_partsOf body)]
  blockContaining? _ _ := blockContaining?_eq_some_iff
  begins _ inside := exists_start_eq_iff inside
  closes block present offset instruction instruction_eq transfers := by
    obtain ⟨index, found⟩ := Array.getElem?_of_mem present
    have within := (List.getElem?_eq_some_iff.mp instruction_eq).1
    apply Decidable.byContradiction
    intro inside
    have open_ := endsBlock_inside found (by omega) instruction_eq
    exact absurd (transfers.endsBlock.symm.trans open_) (by decide)

/-! ## Edges by exceptions -/

/-- The classes on the edges to a block are those of the exceptions that lead to it. -/
theorem mem_exception_edges_iff
    {normal : List Nat}
    {exceptions : List (Nat × BinaryName)}
    {type : BinaryName} :
    (∃ types, (target, Edge.exception types) ∈ edges normal exceptions ∧ type ∈ types) ↔
      (target, type) ∈ exceptions := by
  have listed : ∀ other, other ∈ (exceptions.filter (·.1 == target)).map (·.2) ↔
      (target, other) ∈ exceptions := by
    intro other
    simp [List.mem_filter]
  constructor
  · rintro ⟨types, present, named⟩
    obtain ⟨_, edge_eq⟩ := mem_edges.mp present
    split at edge_eq
    · simp at edge_eq
    · rw [Edge.exception.injEq] at edge_eq
      rw [edge_eq, List.mem_eraseDups] at named
      exact (listed type).mp named
  · intro leads
    have filled : ((exceptions.filter (·.1 == target)).map (·.2)).isEmpty ≠ true := by
      rw [ne_eq, List.isEmpty_iff]
      exact List.ne_nil_of_mem ((listed type).mpr leads)
    exact ⟨_, mem_edges.mpr ⟨Or.inr ⟨type, leads⟩, (if_neg filled).symm⟩,
      List.mem_eraseDups.mpr ((listed type).mpr leads)⟩

/-- A placed range covers a position of a block if it covers the first one. -/
theorem exists_covers_iff
    (found : (ofBody body).blocks[index]? = some block)
    {range : ExceptionRange}
    {start stop handler : Nat}
    (places : body.Places range start stop handler) :
    (∃ position, block.Covers position ∧ start ≤ position ∧ position < stop) ↔
      start ≤ block.start ∧ block.start < stop := by
  constructor
  · rintro ⟨position, ⟨covers, covered⟩, within, before⟩
    exact covers_start_of_places found places covers covered within before
  · intro within
    exact ⟨block.start, covers_start found, within⟩

/-- A placed range that covers the first position of a block covers all of them. -/
theorem covers_of_covers_start
    (found : (ofBody body).blocks[index]? = some block)
    {range : ExceptionRange}
    {start stop handler : Nat}
    (places : body.Places range start stop handler)
    (within : start ≤ block.start ∧ block.start < stop)
    (covers : block.Covers position) :
    start ≤ position ∧ position < stop := by
  refine ⟨Nat.le_trans within.1 covers.1, ?_⟩
  apply Decidable.byContradiction
  intro beyond
  have covered := covers.2
  have begins := start_eq_of_leads found (Nat.le_of_lt within.2) (by omega)
    (leads_of_places places).2.1
  omega

/-- The edges of a block come from its last instruction and from the ranges that cover its
first position. -/
theorem exists_successors_eq (found : (ofBody body).blocks[index]? = some block) :
    ∃ normal, block.successors =
      edges normal
        (exceptionExits (segmentOf (partsOf body)) (rangesOf body) block.start) := by
  obtain ⟨part, _, rfl⟩ := exists_part found
  exact ⟨_, rfl⟩

/-- An edge carries a class of exceptions if a range that protects the block catches it. -/
theorem exception_iff
    (found : (ofBody body).blocks[index]? = some block)
    {type : BinaryName} :
    (∃ types, (target, Edge.exception types) ∈ block.successors ∧ type ∈ types) ↔
      ∃ range start stop handler, body.Places range start stop handler ∧
        (ofBody body).blockContaining? handler = some target ∧ range.caught = type ∧
        ∃ position, block.Covers position ∧ start ≤ position ∧ position < stop := by
  obtain ⟨normal, successors_eq⟩ := exists_successors_eq found
  rw [successors_eq, mem_exception_edges_iff, mem_exceptionExits]
  constructor
  · rintro ⟨range, start, stop, handler, places, covers, covered, noted, rfl⟩
    exact ⟨range, start, stop, handler, places, noted, rfl,
      (exists_covers_iff found places).mpr ⟨covers, covered⟩⟩
  · rintro ⟨range, start, stop, handler, places, noted, rfl, covering⟩
    obtain ⟨covers, covered⟩ := (exists_covers_iff found places).mp covering
    exact ⟨range, start, stop, handler, places, covers, covered, noted, rfl⟩

theorem nodup_eraseDups : ∀ types : List BinaryName, types.eraseDups.Nodup
  | [] => List.nodup_nil
  | type :: types => by
      have shorter := List.length_filter_le (fun other => !other == type) types
      rw [List.eraseDups_cons, List.nodup_cons]
      refine ⟨fun present => ?_, nodup_eraseDups _⟩
      rw [List.mem_eraseDups, List.mem_filter] at present
      simp at present
  termination_by types => types.length

/-- A range guards a block if it is placed, covers its first position and has its handler
in the target. -/
theorem guards_iff
    (found : (ofBody body).blocks[index]? = some block)
    {range : ExceptionRange}
    (listed : range ∈ body.ranges) :
    (ofBody body).guards body block target range = true ↔
      ∃ start stop handler, body.Places range start stop handler ∧
        (ofBody body).blockContaining? handler = some target ∧
        start ≤ block.start ∧ block.start < stop := by
  unfold guards
  split
  next start stop handler start_eq stop_eq handler_eq =>
      have places : body.Places range start stop handler :=
        ⟨listed, start_eq, stop_eq, handler_eq⟩
      rw [Bool.and_eq_true, beq_iff_eq, List.any_eq_true]
      have covering : (∃ position ∈ List.range' block.start block.instructions.length,
          (decide (start ≤ position) && decide (position < stop)) = true) ↔
            ∃ position, block.Covers position ∧ start ≤ position ∧ position < stop := by
        simp only [List.mem_range'_1, Bool.and_eq_true, decide_eq_true_eq, Block.Covers,
          Block.stop]
      rw [covering, exists_covers_iff found places]
      constructor
      · rintro ⟨noted, within⟩
        exact ⟨start, stop, handler, places, noted, within⟩
      · rintro ⟨_, _, _, others, noted, within⟩
        obtain rfl := Option.some.inj (start_eq.symm.trans others.start_eq)
        obtain rfl := Option.some.inj (stop_eq.symm.trans others.stop_eq)
        obtain rfl := Option.some.inj (handler_eq.symm.trans others.handler_eq)
        exact ⟨noted, within⟩
  next unplaced =>
      refine iff_of_false Bool.false_ne_true ?_
      rintro ⟨start, stop, handler, places, _⟩
      exact unplaced start stop handler places.start_eq places.stop_eq places.handler_eq

/-- The classes that leave a block for another one are thrown by the ranges that guard it,
in their order. -/
theorem map_exceptionExits (found : (ofBody body).blocks[index]? = some block) :
    ((exceptionExits (segmentOf (partsOf body)) (rangesOf body) block.start).filter
        (·.1 == target)).map (·.2) =
      (ofBody body).thrown body block target := by
  rw [thrown, ← List.filterMap_eq_map, ← List.filterMap_eq_map, ← List.filterMap_eq_filter,
    ← List.filterMap_eq_filter, exceptionExits, rangesOf, placedRanges]
  simp only [List.filterMap_filterMap]
  refine List.filterMap_congr fun range listed => ?_
  have guarded := @guards_iff body index target block found range listed
  simp only [getElem?_labelPositions]
  by_cases isGuard : (ofBody body).guards body block target range = true
  · obtain ⟨start, stop, handler, places, noted, within⟩ := guarded.mp isGuard
    rw [blockContaining?_eq_getD (Body.lt_of_positionOf? places.handler_eq), Option.some.injEq]
      at noted
    simp [places.start_eq, places.stop_eq, places.handler_eq, noted, within, isGuard,
      Option.guard, ExceptionRange.caught, -Array.getD_eq_getD_getElem?]
  · rw [Option.guard, if_neg isGuard, Option.bind_none]
    split
    next start stop handler start_eq stop_eq handler_eq =>
        have places : body.Places range start stop handler :=
          ⟨listed, start_eq, stop_eq, handler_eq⟩
        rw [Option.bind_some]
        split
        next covers =>
            have elsewhere : (segmentOf (partsOf body)).getD handler 0 ≠ target := by
              rintro rfl
              rw [Bool.and_eq_true, decide_eq_true_eq, decide_eq_true_eq] at covers
              exact isGuard (guarded.mpr ⟨start, stop, handler, places,
                blockContaining?_eq_getD (Body.lt_of_positionOf? handler_eq), covers⟩)
            simp [Option.guard, elsewhere, -Array.getD_eq_getD_getElem?]
        next => rfl
    next => rfl

/-- An edge by exceptions carries the classes that are thrown, each of them once. -/
theorem types_eq
    (found : (ofBody body).blocks[index]? = some block)
    {types : List BinaryName}
    (present : (target, Edge.exception types) ∈ block.successors) :
    types = ((ofBody body).thrown body block target).eraseDups ∧ types.Nodup ∧ types ≠ [] := by
  obtain ⟨normal, successors_eq⟩ := exists_successors_eq found
  rw [successors_eq] at present
  obtain ⟨_, edge_eq⟩ := mem_edges.mp present
  rw [map_exceptionExits found] at edge_eq
  split at edge_eq
  · contradiction
  next filled =>
      rw [Edge.exception.injEq] at edge_eq
      refine ⟨edge_eq, edge_eq ▸ nodup_eraseDups _, ?_⟩
      rintro rfl
      cases classes : (ofBody body).thrown body block target with
      | nil => exact filled (by rw [classes]; rfl)
      | cons type others => rw [classes, List.eraseDups_cons] at edge_eq; contradiction

/-! ## Normal edges -/

/-- The last instruction goes to the blocks that begin at its targets, and on to the one
that begins behind it. -/
theorem goesTo_iff (found : (ofBody body).blocks[index]? = some block) :
    GoesTo body block target ↔
      ∃ last targetBlock, block.instructions.getLast? = some last ∧
        (ofBody body).blocks[target]? = some targetBlock ∧
        ((∃ label ∈ last.jumpTargets, body.positionOf? label = some targetBlock.start) ∨
          (last.fallsThrough = true ∧ targetBlock.start = block.stop)) := by
  constructor
  · intro goes
    have enters : ∃ position, (ofBody body).blockContaining? position = some target := by
      obtain ⟨_, _, ⟨_, _, position, _, noted⟩ | ⟨_, noted⟩⟩ := goes
      · exact ⟨position, noted⟩
      · exact ⟨_, noted⟩
    obtain ⟨_, noted⟩ := enters
    obtain ⟨targetBlock, targetFound, _⟩ := blockContaining?_eq_some_iff.mp noted
    obtain ⟨last, last_eq, ways⟩ := start_of_goesTo found targetFound goes
    exact ⟨last, targetBlock, last_eq, targetFound, ways⟩
  · rintro ⟨last, targetBlock, last_eq, targetFound, ways⟩
    have noted : (ofBody body).blockContaining? targetBlock.start = some target :=
      blockContaining?_eq_some_iff.mpr ⟨targetBlock, targetFound, covers_start targetFound⟩
    refine ⟨last, last_eq, ways.imp ?_ ?_⟩
    · rintro ⟨label, jumps, placed⟩
      exact ⟨label, jumps, _, placed, noted⟩
    · rintro ⟨falls, begins⟩
      exact ⟨falls, begins ▸ noted⟩

theorem connects_ofBody (body : Body) : (ofBody body).Connects body where
  exception_iff block present _ _ := by
    obtain ⟨index, found⟩ := Array.getElem?_of_mem present
    exact exception_iff found
  covers_block block present range start stop handler places covering position covers := by
    obtain ⟨index, found⟩ := Array.getElem?_of_mem present
    exact covers_of_covers_start found places ((exists_covers_iff found places).mp covering) covers
  types_eq block present _ _ edge := by
    obtain ⟨index, found⟩ := Array.getElem?_of_mem present
    exact types_eq found edge
  normal_iff block present target := by
    obtain ⟨index, found⟩ := Array.getElem?_of_mem present
    rw [normal_mem_successors_iff found, exception_mem_successors_iff found, goesTo_iff found]
  edge_unique block present target edge other edgePresent otherPresent := by
    obtain ⟨index, found⟩ := Array.getElem?_of_mem present
    obtain ⟨normal, successors_eq⟩ := exists_successors_eq found
    rw [successors_eq] at edgePresent otherPresent
    exact (mem_edges.mp edgePresent).2.trans (mem_edges.mp otherPresent).2.symm
  needsFrame_iff block present := by
    obtain ⟨index, found⟩ := Array.getElem?_of_mem present
    exact needsFrame_iff found

/-- The flow graph that is built for a body is its control flow. -/
theorem holdsControlFlow_ofBody (body : Body) : (ofBody body).HoldsControlFlow body :=
  ⟨partitions_ofBody body, connects_ofBody body⟩

end FlowGraph

end StackMaps
