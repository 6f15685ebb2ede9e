import StackMaps.Flow.Framing
import StackMaps.Proofs.Flow.Reaching
import StackMaps.Proofs.Flow.Control

/-!
# Blocks that emit frames

A reached block with a real instruction emits a frame if it needs one itself, or if it
follows a run of reached blocks of marks alone one of which does. The frames are found
by going through the blocks once, and whatever is jumped to has one.
-/

namespace StackMaps

/-- The block holds marks alone. -/
def Block.IsBare (block : Block) : Prop :=
  ∀ instruction ∈ block.instructions, instruction.isMark = true

namespace FlowGraph

/-- The block is reached and holds marks alone. -/
def BareAt (graph : FlowGraph) (notes : Nat → Notes) (index : Nat) : Prop :=
  ∃ block, graph.blocks[index]? = some block ∧ (notes index).inputState.isSome ∧ block.IsBare

/-- The block needs a frame. -/
def NeedsFrameAt (graph : FlowGraph) (index : Nat) : Prop :=
  ∃ block, graph.blocks[index]? = some block ∧ block.needsFrame = true

/-- Just in front of the block there is a run of reached blocks of marks alone, one of
which needs a frame. -/
def Awaits (graph : FlowGraph) (notes : Nat → Notes) (index : Nat) : Prop :=
  ∃ first, (∀ other, first ≤ other → other < index → graph.BareAt notes other) ∧
    ∃ other, first ≤ other ∧ other < index ∧ graph.NeedsFrameAt other

/-- The block is reached, has a real instruction, and needs a frame or follows a run
that does. -/
structure Emits (graph : FlowGraph) (notes : Nat → Notes) (index : Nat) : Prop where
  reached : (notes index).inputState.isSome
  real : ∃ block, graph.blocks[index]? = some block ∧
    ∃ instruction ∈ block.instructions, instruction.isMark = false
  needs : graph.NeedsFrameAt index ∨ graph.Awaits notes index

/-- The frame of a block: the slots at its entry, and its first real instruction. -/
def siteOn (graph : FlowGraph) (notes : Nat → Notes) (index : Nat) : FrameSite :=
  { state := (notes index).inputState.getD .empty
    position := ((graph.blocks[index]?).bind firstReal?).getD 0 }

variable {graph : FlowGraph} {notes : Nat → Notes} {index : Nat} {block : Block}

/-! ## One block more -/

theorem firstReal?_eq_none_iff : firstReal? block = none ↔ block.IsBare := by
  simp [firstReal?, Block.IsBare]

theorem firstReal?_eq_some_iff {position : Nat} :
    firstReal? block = some position ↔
      ∃ offset instruction, position = block.start + offset ∧
        block.instructions[offset]? = some instruction ∧ instruction.isMark = false ∧
        ∀ before instruction, before < offset → block.instructions[before]? = some instruction →
          instruction.isMark = true := by
  simp only [firstReal?, Option.map_eq_some_iff, List.findIdx?_eq_some_iff_getElem]
  constructor
  · rintro ⟨offset, ⟨inside, real, earlier⟩, rfl⟩
    refine ⟨offset, _, rfl, List.getElem?_eq_getElem inside, by simpa using real, ?_⟩
    intro before instruction less found
    obtain ⟨_, rfl⟩ := List.getElem?_eq_some_iff.mp found
    simpa using earlier before less
  · rintro ⟨offset, instruction, rfl, found, real, earlier⟩
    obtain ⟨inside, rfl⟩ := List.getElem?_eq_some_iff.mp found
    refine ⟨offset, ⟨inside, by simpa using real, fun before less => ?_⟩, rfl⟩
    simpa using earlier before _ less (List.getElem?_eq_getElem (Nat.lt_trans less inside))

theorem needsFrameAt_iff (block_eq : graph.blocks[index]? = some block) :
    graph.NeedsFrameAt index ↔ block.needsFrame = true := by
  simp [NeedsFrameAt, block_eq]

theorem bareAt_iff (block_eq : graph.blocks[index]? = some block) :
    graph.BareAt notes index ↔ (notes index).inputState.isSome ∧ block.IsBare := by
  simp [BareAt, block_eq]

/-- A block that emits a frame has more than marks. -/
theorem Emits.not_isBare
    (emits : graph.Emits notes index)
    (block_eq : graph.blocks[index]? = some block) :
    ¬block.IsBare := by
  intro bare
  obtain ⟨same, same_eq, instruction, present, real⟩ := emits.real
  obtain rfl := Option.some.inj (block_eq.symm.trans same_eq)
  exact absurd ((bare instruction present).symm.trans real) (by decide)

theorem not_awaits_zero : ¬graph.Awaits notes 0 := by
  rintro ⟨_, _, other, _, before, _⟩
  exact absurd before (Nat.not_lt_zero other)

/-- A frame is awaited behind a reached block of marks alone that needs one or awaits
one itself. -/
theorem awaits_succ_iff :
    graph.Awaits notes (index + 1) ↔
      graph.BareAt notes index ∧ (graph.NeedsFrameAt index ∨ graph.Awaits notes index) := by
  constructor
  · rintro ⟨first, bare, other, le, before, needs⟩
    refine ⟨bare index (by omega) (Nat.lt_succ_self index), ?_⟩
    by_cases last : other = index
    · exact Or.inl (last ▸ needs)
    · exact Or.inr ⟨first, fun earlier from_ less => bare earlier from_ (Nat.lt_succ_of_lt less),
        other, le, by omega, needs⟩
  · rintro ⟨bare, needs | ⟨first, run, other, le, before, needs⟩⟩
    · refine ⟨index, fun other le less => ?_, index, Nat.le_refl _, Nat.lt_succ_self _, needs⟩
      obtain rfl : other = index := by omega
      exact bare
    · refine ⟨first, fun earlier from_ less => ?_, other, le, Nat.lt_succ_of_lt before, needs⟩
      by_cases last : earlier = index
      · exact last ▸ bare
      · exact run earlier from_ (by omega)

/-- What has been found out from the blocks in front of one: whether a frame is awaited,
and the frames of the blocks that emit one. -/
structure SitesUpTo
    (graph : FlowGraph)
    (notes : Nat → Notes)
    (count : Nat)
    (found : Bool × List FrameSite)
    (emitting : List Nat) : Prop where
  waiting_iff : found.1 = true ↔ graph.Awaits notes count
  sites_eq : found.2.reverse = emitting.map (graph.siteOn notes)
  ascending : emitting.Pairwise (· < ·)
  mem_iff : ∀ index, index ∈ emitting ↔ index < count ∧ graph.Emits notes index

theorem SitesUpTo.zero : SitesUpTo graph notes 0 (false, []) [] where
  waiting_iff := by simp [not_awaits_zero]
  sites_eq := rfl
  ascending := .nil
  mem_iff := by simp

variable {count : Nat} {found : Bool × List FrameSite} {emitting : List Nat}

/-- A block that does not emit adds nothing. -/
theorem SitesUpTo.skip
    (upTo : SitesUpTo graph notes count found emitting)
    {waiting : Bool}
    (waiting_iff : waiting = true ↔ graph.Awaits notes (count + 1))
    (silent : ¬graph.Emits notes count) :
    SitesUpTo graph notes (count + 1) (waiting, found.2) emitting where
  waiting_iff := waiting_iff
  sites_eq := upTo.sites_eq
  ascending := upTo.ascending
  mem_iff index := by
    rw [upTo.mem_iff]
    refine ⟨fun emits => ⟨Nat.lt_succ_of_lt emits.1, emits.2⟩, fun emits => ⟨?_, emits.2⟩⟩
    have distinct : index ≠ count := fun same => silent (same ▸ emits.2)
    have := emits.1
    omega

/-- A block that emits adds its frame. -/
theorem SitesUpTo.emit
    (upTo : SitesUpTo graph notes count found emitting)
    {site : FrameSite}
    (site_eq : site = graph.siteOn notes count)
    (emits : graph.Emits notes count)
    (settled : ¬graph.Awaits notes (count + 1)) :
    SitesUpTo graph notes (count + 1) (false, site :: found.2) (emitting ++ [count]) where
  waiting_iff := by simp [settled]
  sites_eq := by simp [upTo.sites_eq, site_eq]
  ascending := by
    rw [List.pairwise_append]
    refine ⟨upTo.ascending, List.pairwise_singleton _ _, ?_⟩
    intro index present other last
    rw [List.mem_singleton.mp last]
    exact ((upTo.mem_iff index).mp present).1
  mem_iff index := by
    rw [List.mem_append, List.mem_singleton, upTo.mem_iff]
    constructor
    · rintro (⟨before, other⟩ | rfl)
      · exact ⟨Nat.lt_succ_of_lt before, other⟩
      · exact ⟨Nat.lt_succ_self index, emits⟩
    · rintro ⟨before, other⟩
      by_cases last : index = count
      · exact Or.inr last
      · exact Or.inl ⟨by omega, other⟩

/-- One more block is gone through. -/
theorem SitesUpTo.step
    (upTo : SitesUpTo graph notes count found emitting)
    (block_eq : graph.blocks[count]? = some block) :
    ∃ more, SitesUpTo graph notes (count + 1) (siteStep found (block, notes count)) more := by
  have wants_iff : (block.needsFrame || found.1) = true ↔
      graph.NeedsFrameAt count ∨ graph.Awaits notes count := by
    rw [Bool.or_eq_true, needsFrameAt_iff block_eq, upTo.waiting_iff]
  have awaits_iff := @awaits_succ_iff graph notes count
  rw [bareAt_iff block_eq] at awaits_iff
  obtain ⟨waiting, sites⟩ := found
  unfold siteStep
  dsimp only
  split
  next unreached =>
      rw [unreached] at awaits_iff
      refine ⟨emitting, upTo.skip (by simp [awaits_iff]) fun emits => ?_⟩
      have reached := emits.reached
      simp [unreached] at reached
  next state reached =>
      rw [reached] at awaits_iff
      split
      next wants =>
          split
          next alone =>
              have bare := firstReal?_eq_none_iff.mp alone
              refine ⟨emitting, upTo.skip ?_ fun emits => ?_⟩
              · exact iff_of_true rfl (awaits_iff.mpr ⟨⟨rfl, bare⟩, wants_iff.mp wants⟩)
              · exact emits.not_isBare block_eq bare
          next position first =>
              obtain ⟨offset, instruction, _, here, real, _⟩ := firstReal?_eq_some_iff.mp first
              have present := List.mem_of_getElem? here
              refine ⟨emitting ++ [count], upTo.emit ?_ ⟨by simp [reached],
                ⟨block, block_eq, instruction, present, real⟩, wants_iff.mp wants⟩ ?_⟩
              · simp [siteOn, reached, block_eq, first]
              · intro awaits
                have marks := (awaits_iff.mp awaits).1.2 instruction present
                exact absurd (marks.symm.trans real) (by decide)
      next unwanted =>
          refine ⟨emitting, upTo.skip ?_ fun emits => unwanted (wants_iff.mpr emits.needs)⟩
          exact iff_of_false (by decide) fun awaits =>
            unwanted (wants_iff.mpr (awaits_iff.mp awaits).2)

/-- The frames are those of the blocks that emit one, in the order of the body. -/
theorem exists_emitting
    (graph : FlowGraph)
    (notes : Array Notes)
    (size_eq : notes.size = graph.blocks.size) :
    ∃ emitting : List Nat, emitting.Pairwise (· < ·) ∧
      (∀ index, index ∈ emitting ↔ graph.Emits (notes.getD · .blank) index) ∧
      graph.frameSites notes = emitting.map (graph.siteOn (notes.getD · .blank)) := by
  have upTo : ∀ count ≤ graph.blocks.size, ∃ emitting,
      SitesUpTo graph (notes.getD · .blank) count
        (((graph.blocks.toList.zip notes.toList).take count).foldl siteStep (false, []))
        emitting := by
    intro count
    induction count with
    | zero => exact fun _ => ⟨[], .zero⟩
    | succ count hypothesis =>
        intro inside
        obtain ⟨emitting, before⟩ := hypothesis (Nat.le_of_succ_le inside)
        have block_eq := Array.getElem?_eq_getElem (show count < graph.blocks.size from inside)
        have entry_eq : (graph.blocks.toList.zip notes.toList)[count]? =
            some (graph.blocks[count], notes.getD count .blank) := by
          have noted : count < notes.size := by omega
          simp [List.getElem?_zip_eq_some, noted, Array.getD]
        obtain ⟨more, after⟩ := before.step block_eq
        refine ⟨more, ?_⟩
        rw [List.take_add_one, entry_eq, Option.toList_some, List.foldl_append]
        exact after
  obtain ⟨emitting, whole⟩ := upTo graph.blocks.size (Nat.le_refl _)
  rw [List.take_of_length_le (by simp [size_eq])] at whole
  refine ⟨emitting, whole.ascending, fun index => ?_, whole.sites_eq⟩
  rw [whole.mem_iff]
  refine and_iff_right_of_imp fun emits => ?_
  obtain ⟨block, block_eq, _⟩ := emits.real
  exact (Array.getElem?_eq_some_iff.mp block_eq).1

/-! ## Targets -/

section Targets

variable {body : Body}

/-- Control goes on behind a block of marks alone. -/
theorem follows_of_isBare
    {next : Block}
    (found : (ofBody body).blocks[index]? = some block)
    (nextFound : (ofBody body).blocks[index + 1]? = some next)
    (bare : block.IsBare) :
    (ofBody body).Follows index (index + 1) := by
  have nonempty := List.length_pos_iff.mpr (instructions_ne_nil nextFound)
  have noted : (ofBody body).blockContaining? block.stop = some (index + 1) := by
    rw [← start_eq_stop found nextFound]
    exact blockContaining?_eq_some_iff.mpr
      ⟨next, nextFound, Nat.le_refl _, by simp only [Block.stop]; omega⟩
  obtain ⟨last, last_eq⟩ := List.getLast?_isSome.mpr (instructions_ne_nil found) |>
    Option.isSome_iff_exists.mp
  have falls : last.fallsThrough = true := by
    have marks := bare last (List.mem_of_getLast? last_eq)
    cases last with
    | mark label => rfl
    | _ => simp [Instruction.isMark, Instruction.marks?] at marks
  obtain ⟨edge, present⟩ := exists_edge_of_goesTo found ⟨last, last_eq, Or.inr ⟨falls, noted⟩⟩
  exact ⟨block, edge, found, present⟩

/-- From a block on, which begins at the given start, up to the one that covers a
position all blocks are reached, and those in front of the last one hold marks alone. -/
structure RunTo
    (body : Body)
    (notes : Nat → Notes)
    (first start position last : Nat) : Prop where
  le : first ≤ last
  covered : ∃ block, (ofBody body).blocks[last]? = some block ∧ start ≤ block.start ∧
    block.start ≤ position ∧ position < block.stop
  reached : (notes last).inputState.isSome
  bare : ∀ other, first ≤ other → other < last → (ofBody body).BareAt notes other

/-- The run goes on to the next block if the last one holds marks alone. -/
theorem RunTo.next
    {first start position last : Nat}
    (run : RunTo body notes first start position last)
    (spreads : ∀ index target, (ofBody body).Follows index target →
      (notes index).inputState.isSome → (notes target).inputState.isSome)
    (found : (ofBody body).blocks[last]? = some block)
    (bare : block.IsBare)
    (stop_eq : block.stop = position + 1)
    (inside : position + 1 < body.instructions.length) :
    RunTo body notes first start (position + 1) (last + 1) := by
  obtain ⟨same, same_eq, begins, covers, _⟩ := run.covered
  obtain rfl := Option.some.inj (found.symm.trans same_eq)
  obtain ⟨next, nextFound⟩ := exists_next found (stop_eq ▸ inside)
  have joined := start_eq_stop found nextFound
  have filled := List.length_pos_iff.mpr (instructions_ne_nil nextFound)
  refine ⟨Nat.le_succ_of_le run.le, ⟨next, nextFound, by omega, by omega, ?_⟩, ?_, ?_⟩
  · simp only [Block.stop]
    omega
  · exact spreads last (last + 1) (follows_of_isBare found nextFound bare) run.reached
  · intro other from_ less
    by_cases isLast : other = last
    · exact isLast ▸ ⟨block, found, run.reached, bare⟩
    · exact run.bare other from_ (by omega)

/-- The run from a target goes on over the marks behind it. -/
theorem exists_runTo
    (spreads : ∀ index target, (ofBody body).Follows index target →
      (notes index).inputState.isSome → (notes target).inputState.isSome)
    {first : Nat}
    (found : (ofBody body).blocks[first]? = some block)
    (reached : (notes first).inputState.isSome)
    (distance : Nat)
    (inside : block.start + distance < body.instructions.length)
    (marks : ∀ (offset : Nat) (instruction : Instruction), offset < distance →
      body.instructions[block.start + offset]? = some instruction →
      instruction.isMark = true) :
    ∃ last, RunTo body notes first block.start (block.start + distance) last := by
  induction distance with
  | zero =>
      have filled := List.length_pos_iff.mpr (instructions_ne_nil found)
      refine ⟨first, Nat.le_refl _, ⟨block, found, Nat.le_refl _, Nat.le_refl _, ?_⟩, reached, ?_⟩
      · simp only [Block.stop]
        omega
      · intro other le less
        omega
  | succ distance hypothesis =>
      obtain ⟨last, run⟩ := hypothesis (by omega)
        fun offset instruction less => marks offset instruction (Nat.lt_succ_of_lt less)
      obtain ⟨lastBlock, last_eq, begins, covers, covered⟩ := run.covered
      by_cases within : block.start + distance + 1 < lastBlock.stop
      · exact ⟨last, run.le, ⟨lastBlock, last_eq, begins, by omega, within⟩, run.reached,
          run.bare⟩
      · refine ⟨last + 1, run.next spreads last_eq ?_ (by omega) inside⟩
        intro instruction present
        obtain ⟨offset, here⟩ := List.getElem?_of_mem present
        have less := (List.getElem?_eq_some_iff.mp here).1
        refine marks (lastBlock.start - block.start + offset) instruction ?_ ?_
        · simp only [Block.stop] at covered within
          omega
        · have position_eq : block.start + (lastBlock.start - block.start + offset) =
              lastBlock.start + offset := by omega
          rw [position_eq, ← getElem?_instructions last_eq less, here]

/-- A reached target has a frame at the first real instruction behind it. -/
theorem exists_emits_of_target
    (spreads : ∀ index target, (ofBody body).Follows index target →
      (notes index).inputState.isSome → (notes target).inputState.isSome)
    {first : Nat}
    (found : (ofBody body).blocks[first]? = some block)
    (reached : (notes first).inputState.isSome)
    (needs : block.needsFrame = true)
    {distance : Nat}
    {instruction : Instruction}
    (here : body.instructions[block.start + distance]? = some instruction)
    (real : instruction.isMark = false)
    (marks : ∀ (offset : Nat) (instruction : Instruction), offset < distance →
      body.instructions[block.start + offset]? = some instruction →
      instruction.isMark = true) :
    ∃ last, (ofBody body).Emits notes last ∧
      ((ofBody body).siteOn notes last).position = block.start + distance := by
  have inside := (List.getElem?_eq_some_iff.mp here).1
  obtain ⟨last, run⟩ := exists_runTo spreads found reached distance inside marks
  obtain ⟨lastBlock, last_eq, begins, covers, covered⟩ := run.covered
  have offset_lt : block.start + distance - lastBlock.start < lastBlock.instructions.length := by
    simp only [Block.stop] at covered
    omega
  have at_offset : lastBlock.instructions[block.start + distance - lastBlock.start]? =
      some instruction := by
    rw [getElem?_instructions last_eq offset_lt, Nat.add_sub_cancel' covers, here]
  refine ⟨last, ⟨run.reached,
    ⟨lastBlock, last_eq, instruction, List.mem_of_getElem? at_offset, real⟩, ?_⟩, ?_⟩
  · rcases Nat.eq_or_lt_of_le run.le with same | later
    · exact Or.inl ⟨lastBlock, last_eq, by
        subst same
        rwa [← Option.some.inj (found.symm.trans last_eq)]⟩
    · exact Or.inr ⟨first, run.bare, first, Nat.le_refl _, later, block, found, needs⟩
  · have first_eq : firstReal? lastBlock = some (block.start + distance) := by
      refine firstReal?_eq_some_iff.mpr
        ⟨_, instruction, (Nat.add_sub_cancel' covers).symm, at_offset, real, ?_⟩
      intro before mark less at_before
      refine marks (lastBlock.start - block.start + before) mark (by omega) ?_
      have position_eq : block.start + (lastBlock.start - block.start + before) =
          lastBlock.start + before := by omega
      rw [position_eq, ← getElem?_instructions last_eq (Nat.lt_trans less offset_lt), at_before]
    simp [siteOn, last_eq, first_eq]

end Targets

end FlowGraph

end StackMaps
