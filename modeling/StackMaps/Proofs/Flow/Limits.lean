import StackMaps.Flow.Session
import StackMaps.Proofs.Flow.DepthMachine
import Mathlib.Order.Bounds.Basic

/-!
# The limits found by counting

The count is exact. Every depth and every number of locals in its notes is met by
the machine that runs through the body, and when nobody waits any more, whatever
the machine meets is covered by the notes on a reached block.
-/

namespace StackMaps

namespace Maxes

/-- Take account of the notes on a block. -/
def raise (maxes : Maxes) (entry : Notes) : Maxes :=
  if entry.isReached then
    ⟨max maxes.maxLocals entry.maxLocals, max maxes.maxStack entry.maxDepth⟩
  else maxes

variable {entries : List Notes} {start : Maxes}

theorem maxStack_foldl_raise_le_iff {bound : Nat} :
    (entries.foldl raise start).maxStack ≤ bound ↔
      start.maxStack ≤ bound ∧
        ∀ entry ∈ entries, entry.isReached = true → entry.maxDepth ≤ bound := by
  refine Greatest.foldl_le_iff maxStack fun maxes entry => ?_
  rw [raise]
  split
  next reached => simp [reached]
  next unreached => simp [unreached]

theorem maxLocals_foldl_raise_le_iff {bound : Nat} :
    (entries.foldl raise start).maxLocals ≤ bound ↔
      start.maxLocals ≤ bound ∧
        ∀ entry ∈ entries, entry.isReached = true → entry.maxLocals ≤ bound := by
  refine Greatest.foldl_le_iff maxLocals fun maxes entry => ?_
  rw [raise]
  split
  next reached => simp [reached]
  next unreached => simp [unreached]

/-- What holds of the limits at the start and is kept by all notes holds of the limits
in the end. -/
theorem foldl_raise_induction
    (Holds : Maxes → Prop)
    (atStart : Holds start)
    (step : ∀ maxes, ∀ entry ∈ entries, Holds maxes → Holds (maxes.raise entry)) :
    Holds (entries.foldl raise start) := by
  induction entries generalizing start with
  | nil => exact atStart
  | cons entry rest hypothesis =>
      exact hypothesis (step start entry List.mem_cons_self atStart)
        fun maxes later present => step maxes later (List.mem_cons_of_mem _ present)

end Maxes

namespace FlowGraph

/-- The last moment of the count. -/
def countRun (graph : FlowGraph) (instructions : List Instruction) (startLocals : Nat) :
    Progress :=
  Progress.run (graph.visitDepth (2 * instructions.length))
    (graph.depthFuel (2 * instructions.length) (localsNeeded instructions startLocals))
    (graph.opening (Notes.enterWith startLocals))

/-- The outcome of the count is read off its last moment. -/
theorem countDepths_eq
    {graph : FlowGraph}
    (filled : 0 < graph.blocks.size)
    (instructions : List Instruction)
    (startLocals : Nat)
    {notes : Array Notes}
    (size_eq : notes.size = graph.blocks.size) :
    graph.countDepths instructions startLocals (notes.map Notes.wipe) =
      ((graph.countRun instructions startLocals).notes.toList.foldl Maxes.raise
          ⟨startLocals, 0⟩,
        (graph.countRun instructions startLocals).notes) := by
  have nonempty : ¬graph.blocks.isEmpty = true := by
    simp only [Array.isEmpty_iff_size_eq_zero]
    omega
  rw [map_wipe, size_eq, Array.foldl_toList]
  exact if_neg nonempty

end FlowGraph

namespace Body

/-- The numbers of locals that are met, or given at the start. -/
def localsSeen (body : Body) (startLocals : Nat) : Set Nat :=
  insert 0 (insert startLocals body.localsMet)

theorem localsNeeded_mem_localsSeen
    {body : Body}
    {position depth : Nat}
    {instruction : Instruction}
    (reached : body.DepthReached position depth)
    (found : body.instructions[position]? = some instruction)
    (startLocals : Nat) :
    instruction.localsNeeded ∈ body.localsSeen startLocals := by
  unfold Instruction.localsNeeded
  cases slots_eq : instruction.localSlots? with
  | none => exact Set.mem_insert 0 _
  | some slots =>
      obtain ⟨index, width⟩ := slots
      exact Set.mem_insert_of_mem _ (Set.mem_insert_of_mem _
        ⟨position, depth, instruction, index, width, reached, found, slots_eq, rfl⟩)

end Body

/-- The greater one of two numbers in a set is in the set. -/
theorem max_mem {numbers : Set Nat} {left right : Nat}
    (leftIn : left ∈ numbers)
    (rightIn : right ∈ numbers) :
    max left right ∈ numbers :=
  Greatest.max_induction (· ∈ numbers) leftIn rightIn

namespace FlowGraph

/-- The notes on a block of a body when the count has ended. -/
def countedNotes (body : Body) (startLocals index : Nat) : Notes :=
  ((ofBody body).countRun body.instructions startLocals).notesOn index

/-- The limits of a body. -/
def countedMaxes (body : Body) (startLocals : Nat) : Maxes :=
  ((ofBody body).countRun body.instructions startLocals).notes.toList.foldl Maxes.raise
    ⟨startLocals, 0⟩

variable {body : Body} {startLocals : Nat}

/-- Everything in the notes on a block is met by the machine. -/
structure Met (body : Body) (startLocals index : Nat) (notes : Notes) : Prop where
  isSome_of_first : index = 0 → notes.inputDepth.isSome
  reached : ∀ block depth, (ofBody body).blocks[index]? = some block →
    notes.inputDepth = some depth → body.DepthReached block.start depth
  maxDepth_mem : notes.maxDepth ∈ insert 0 body.depthsMet
  inputLocals_mem : notes.inputLocals ∈ body.localsSeen startLocals
  maxLocals_mem : notes.maxLocals ∈ body.localsSeen startLocals

theorem Met.transfer
    (once : body.PlacesLabelsOnce)
    {index : Nat}
    {block : Block}
    {notes : Notes}
    (found : (ofBody body).blocks[index]? = some block)
    (entered : notes.inputDepth.isSome)
    (met : Met body startLocals index notes) :
    Met body startLocals index (block.countDepths body.depthLimit notes) := by
  obtain ⟨depth, depth_eq⟩ := Option.isSome_iff_exists.mp entered
  have reached := met.reached block depth found depth_eq
  refine ⟨met.isSome_of_first, met.reached, ?_, met.inputLocals_mem, ?_⟩
  · refine Block.maxDepth_countDepths (· ∈ insert 0 body.depthsMet) met.maxDepth_mem ?_
    intro offset le
    rw [depth_eq]
    exact Set.mem_insert_of_mem _ (replay_mem_depthsMet once found reached le)
  · rw [Block.maxLocals_countDepths]
    rcases localsNeeded_mem block.instructions (max notes.maxLocals notes.inputLocals) with
      same | ⟨instruction, present, same⟩
    · rw [same]
      exact max_mem met.maxLocals_mem met.inputLocals_mem
    · obtain ⟨offset, instruction_eq⟩ := List.getElem?_of_mem present
      have inside := (List.getElem?_eq_some_iff.mp instruction_eq).1
      rw [same]
      exact Body.localsNeeded_mem_localsSeen (depthReached_replay once found reached inside)
        ((getElem?_instructions found inside).symm.trans instruction_eq) startLocals

theorem Met.receive
    (once : body.PlacesLabelsOnce)
    {index target : Nat}
    {block targetBlock : Block}
    {edge : Edge}
    {notes known : Notes}
    (crosses : (ofBody body).Crosses index block edge target targetBlock)
    (entered : notes.inputDepth.isSome)
    (met : Met body startLocals index notes)
    (targetMet : Met body startLocals target known) :
    Met body startLocals target
      (known.raiseTo ((block.countDepths body.depthLimit notes).passedDepth edge)
        (block.countDepths body.depthLimit notes).maxLocals) := by
  obtain ⟨depth, depth_eq⟩ := Option.isSome_iff_exists.mp entered
  have outgoing := depthReached_crosses once crosses
    (met.reached block depth crosses.source_eq depth_eq)
  rw [DepthAnalysis.passedDepth_countDepths depth_eq]
  obtain ⟨raised, raised_eq, _, origin, _⟩ := @Notes.inputDepth_raiseTo known
    (DepthAnalysis.passed body.depthLimit block depth edge)
    (block.countDepths body.depthLimit notes).maxLocals
  refine ⟨fun _ => rfl, ?_, targetMet.maxDepth_mem,
    max_mem targetMet.inputLocals_mem (met.transfer once crosses.source_eq entered).maxLocals_mem,
    targetMet.maxLocals_mem⟩
  intro same other same_eq other_eq
  obtain rfl := Option.some.inj (crosses.target_eq.symm.trans same_eq)
  obtain rfl := Option.some.inj (raised_eq.symm.trans other_eq)
  rcases origin with rfl | before
  · exact outgoing
  · exact targetMet.reached targetBlock raised crosses.target_eq before

theorem lawful_met (once : body.PlacesLabelsOnce) :
    (depthAnalysis body.depthLimit).Lawful (ofBody body) (Met body startLocals) :=
  DepthAnalysis.lawful
    (fun _ _ _ found entered met => met.transfer once found entered)
    (fun _ _ _ _ _ _ _ crosses entered met targetMet =>
      met.receive once crosses entered targetMet)

theorem sound_met (filled : body.instructions ≠ []) :
    (depthAnalysis body.depthLimit).Sound (ofBody body) (Met body startLocals)
      ((ofBody body).opening (Notes.enterWith startLocals)) := by
  have start : startLocals ∈ body.localsSeen startLocals :=
    Set.mem_insert_of_mem _ (Set.mem_insert startLocals _)
  refine Analysis.Sound.opening (size_blocks_pos filled) rfl
    ⟨fun _ => rfl, ?_, Set.mem_insert 0 _, start, Set.mem_insert 0 _⟩ fun index later => ?_
  · rintro block _ found ⟨⟩
    rw [start_of_first found]
    exact .entry filled
  · exact ⟨fun first => absurd first (by omega),
      fun _ _ _ absent => by simp [Notes.blank] at absent,
      Set.mem_insert 0 _, Set.mem_insert 0 _, Set.mem_insert 0 _⟩

/-! ## The end of the count -/

section Finished

variable (filled : body.instructions ≠ [])

include filled

variable (startLocals) in
theorem drains_countRun :
    ((ofBody body).countRun body.instructions startLocals).worklist.toList = [] := by
  have positive : 1 ≤ 2 * body.instructions.length := by
    have := List.length_pos_iff.mpr filled
    omega
  have needed := localsNeeded_le_iff.mp (Nat.le_refl (localsNeeded body.instructions startLocals))
  exact DepthAnalysis.drains (closed_ofBody body) (size_blocks_pos filled) positive
    (fun index block found instruction present =>
      needed.2 instruction (mem_instructions found present))
    needed.1

omit filled in
variable (startLocals) in
theorem reaches_countRun :
    Progress.Reaches ((depthAnalysis body.depthLimit).visit (ofBody body))
      ((ofBody body).opening (Notes.enterWith startLocals))
      ((ofBody body).countRun body.instructions startLocals) := by
  rw [← DepthAnalysis.visitDepth_eq (closed_ofBody body)]
  exact Progress.reaches_run _ _

variable (startLocals) in
theorem sound_countRun (once : body.PlacesLabelsOnce) :
    (depthAnalysis body.depthLimit).Sound (ofBody body) (Met body startLocals)
      ((ofBody body).countRun body.instructions startLocals) :=
  (sound_met filled).reaches (closed_ofBody body) (lawful_met once) (reaches_countRun startLocals)

/-- In the end every reached block is counted, its depth is one of a visit, and its
successors are entered with a depth that is at least what is passed on. -/
theorem settled_countRun_of_visits
    (Met : Block → Nat → Prop)
    (met : ∀ moment index rest block,
      Progress.Reaches ((ofBody body).visitDepth body.depthLimit)
        ((ofBody body).opening (Notes.enterWith startLocals)) moment →
      moment.worklist.pop = (some index, rest) →
      (ofBody body).blocks[index]? = some block →
      Met block ((moment.notesOn index).inputDepth.getD 0))
    {index : Nat}
    {block : Block}
    {depth : Nat}
    (found : (ofBody body).blocks[index]? = some block)
    (entered : (countedNotes body startLocals index).inputDepth = some depth) :
    (DepthAnalysis.Counted body.depthLimit block (countedNotes body startLocals index) ∧
        Met block depth) ∧
      ∀ edge target targetBlock, (ofBody body).Crosses index block edge target targetBlock →
        ∃ deeper, (countedNotes body startLocals target).inputDepth = some deeper ∧
          DepthAnalysis.passed body.depthLimit block depth edge ≤ deeper := by
  have settled := DepthAnalysis.settles (closed_ofBody body) (size_blocks_pos filled)
    body.depthLimit
    ((ofBody body).depthFuel body.depthLimit (localsNeeded body.instructions startLocals))
    startLocals Met met
  have idle : index ∉ ((ofBody body).countRun body.instructions startLocals).worklist.toList := by
    simp [drains_countRun startLocals filled]
  obtain ⟨⟨counted, visited⟩, absorbs⟩ := settled index block (depth, _) found idle
    (DepthAnalysis.entry_eq_some_iff.mpr ⟨entered, rfl⟩)
  have depth_eq : (countedNotes body startLocals index).inputDepth.getD 0 = depth := by
    rw [entered, Option.getD_some]
  exact ⟨⟨counted, depth_eq ▸ visited⟩, absorbs⟩

/-- In the end every reached block is counted, and its successors are entered with a
depth that is at least what is passed on. -/
theorem settled_countRun
    {index : Nat}
    {block : Block}
    {depth : Nat}
    (found : (ofBody body).blocks[index]? = some block)
    (entered : (countedNotes body startLocals index).inputDepth = some depth) :
    DepthAnalysis.Counted body.depthLimit block (countedNotes body startLocals index) ∧
      ∀ edge target targetBlock, (ofBody body).Crosses index block edge target targetBlock →
        ∃ deeper, (countedNotes body startLocals target).inputDepth = some deeper ∧
          DepthAnalysis.passed body.depthLimit block depth edge ≤ deeper := by
  obtain ⟨⟨counted, _⟩, absorbs⟩ := settled_countRun_of_visits filled (fun _ _ => True)
    (fun _ _ _ _ _ _ _ => trivial) found entered
  exact ⟨counted, absorbs⟩

omit filled in
/-- The limits cover the notes on every reached block. -/
theorem le_countedMaxes
    {index : Nat}
    {block : Block}
    (found : (ofBody body).blocks[index]? = some block)
    (entered : (countedNotes body startLocals index).inputDepth.isSome) :
    (countedNotes body startLocals index).maxDepth ≤ (countedMaxes body startLocals).maxStack ∧
      (countedNotes body startLocals index).maxLocals ≤
        (countedMaxes body startLocals).maxLocals := by
  have present : countedNotes body startLocals index ∈
      ((ofBody body).countRun body.instructions startLocals).notes.toList := by
    refine Progress.notesOn_mem ?_
    rw [Analysis.size_reaches (reaches_countRun startLocals)]
    simpa [opening] using (Array.getElem?_eq_some_iff.mp found).1
  have reached : (countedNotes body startLocals index).isReached = true := by
    simp [Notes.isReached, entered]
  exact ⟨(Maxes.maxStack_foldl_raise_le_iff.mp (Nat.le_refl _)).2 _ present reached,
    (Maxes.maxLocals_foldl_raise_le_iff.mp (Nat.le_refl _)).2 _ present reached⟩

omit filled in
theorem startLocals_le_maxLocals : startLocals ≤ (countedMaxes body startLocals).maxLocals := by
  have covered := Nat.le_refl (countedMaxes body startLocals).maxLocals
  rw [countedMaxes, Maxes.maxLocals_foldl_raise_le_iff] at covered
  exact covered.1

/-- The depths that are replayed in a reached block are covered by the limits. -/
theorem replay_le_countedMaxes
    {index : Nat}
    {block : Block}
    {depth : Nat}
    (found : (ofBody body).blocks[index]? = some block)
    (entered : (countedNotes body startLocals index).inputDepth = some depth)
    {offset : Nat}
    (le : offset ≤ block.instructions.length) :
    block.replay body.depthLimit depth offset ≤ (countedMaxes body startLocals).maxStack := by
  have counted := (settled_countRun filled found entered).1.1 offset le
  rw [entered] at counted
  exact Nat.le_trans counted (le_countedMaxes found (by simp [entered])).1

/-- A position of a reached block, with a depth that is at most the one that is
replayed there unless a handler begins at the position. -/
structure Covers
    (body : Body)
    (startLocals index : Nat)
    (block : Block)
    (entry offset depth : Nat) : Prop where
  found : (ofBody body).blocks[index]? = some block
  entered : (countedNotes body startLocals index).inputDepth = some entry
  inside : offset < block.instructions.length
  le_maxStack : depth ≤ (countedMaxes body startLocals).maxStack
  le_replay : ∀ instruction, block.instructions[offset]? = some instruction →
    body.marksHandler instruction = false →
    depth ≤ block.replay body.depthLimit entry offset

variable {index entry offset depth : Nat} {block : Block} {instruction : Instruction}

omit filled in
/-- Behind the instruction the depth is at most the one that is replayed, handlers
included. -/
theorem Covers.depthBehind_le
    (once : body.PlacesLabelsOnce)
    (covers : Covers body startLocals index block entry offset depth)
    (instruction_eq : block.instructions[offset]? = some instruction) :
    body.depthBehind depth instruction ≤ block.replay body.depthLimit entry (offset + 1) := by
  rw [replay_succ_eq once covers.found instruction_eq]
  exact Body.depthBehind_mono (covers.le_replay instruction instruction_eq)

/-- Behind an edge the first position of the successor is covered. The depth on an edge
by exception does not matter, since the successor begins with a handler. -/
theorem covers_crosses
    {edge : Edge}
    {target : Nat}
    {targetBlock : Block}
    (crosses : (ofBody body).Crosses index block edge target targetBlock)
    (entered : (countedNotes body startLocals index).inputDepth = some entry)
    (le_maxStack : depth ≤ (countedMaxes body startLocals).maxStack)
    (le_passed : edge = .normal → depth ≤ DepthAnalysis.passed body.depthLimit block entry edge) :
    ∃ deeper, Covers body startLocals target targetBlock deeper 0 depth := by
  obtain ⟨deeper, deeper_eq, le⟩ :=
    (settled_countRun filled crosses.source_eq entered).2 edge target targetBlock crosses
  refine ⟨deeper, crosses.target_eq, deeper_eq,
    List.length_pos_iff.mpr (instructions_ne_nil crosses.target_eq), le_maxStack, ?_⟩
  intro instruction first_eq ordinary
  cases edge with
  | normal => exact Nat.le_trans (le_passed rfl) le
  | exception types =>
      obtain ⟨range, start, stop, places, _, _⟩ := start_of_catches crosses.target_eq
        ((exception_mem_successors_iff crosses.source_eq).mp ⟨types, crosses.mem_successors⟩)
      have within := (List.getElem?_eq_some_iff.mp first_eq).1
      have marked := (getElem?_instructions crosses.target_eq within).symm.trans first_eq
      rw [Nat.add_zero, Body.getElem?_of_positionOf? places.handler_eq, Option.some.injEq]
        at marked
      have marks := Body.marksHandler_iff.mpr
        ⟨range, start, stop, _, places, Instruction.marks?_eq_some_iff.mpr marked.symm⟩
      exact absurd (marks.symm.trans ordinary) (by decide)

/-- Where control goes on from a covered position is covered too. -/
theorem covers_goesTo
    (once : body.PlacesLabelsOnce)
    (covers : Covers body startLocals index block entry offset depth)
    (instruction_eq : block.instructions[offset]? = some instruction)
    (last : offset + 1 = block.instructions.length)
    {target : Nat}
    {targetBlock : Block}
    (targetFound : (ofBody body).blocks[target]? = some targetBlock)
    (goes : GoesTo body block target) :
    ∃ deeper,
      Covers body startLocals target targetBlock deeper 0 (body.depthBehind depth instruction) := by
  obtain ⟨edge, present⟩ := exists_edge_of_goesTo covers.found goes
  have crosses : (ofBody body).Crosses index block edge target targetBlock :=
    ⟨covers.found, present, targetFound⟩
  have le := covers.depthBehind_le once instruction_eq
  refine covers_crosses filled crosses covers.entered
    (Nat.le_trans le
      (replay_le_countedMaxes filled covers.found covers.entered covers.inside)) ?_
  rintro rfl
  rwa [last] at le

/-- Is a position covered, in whichever block it is? -/
def Covered (body : Body) (startLocals position depth : Nat) : Prop :=
  ∃ index block entry offset, position = block.start + offset ∧
    Covers body startLocals index block entry offset depth

variable (startLocals) in
/-- The entry is covered. -/
theorem covered_entry (once : body.PlacesLabelsOnce) : Covered body startLocals 0 0 := by
  have met := (sound_countRun startLocals filled once).valid 0 (size_blocks_pos filled)
  obtain ⟨entry, entered⟩ := Option.isSome_iff_exists.mp (met.isSome_of_first rfl)
  have found := Array.getElem?_eq_getElem (size_blocks_pos filled)
  refine ⟨0, _, entry, 0, (start_of_first found).symm, found, entered,
    List.length_pos_iff.mpr (instructions_ne_nil found), Nat.zero_le _, ?_⟩
  intro _ _ _
  exact Nat.zero_le _

/-- The next position is covered, be it in the same block or at the start of the
next one. -/
theorem Covers.next
    (covers : Covers body startLocals index block entry offset depth)
    (once : body.PlacesLabelsOnce)
    (instruction_eq : block.instructions[offset]? = some instruction)
    (falls : instruction.fallsThrough = true)
    (inside : block.start + offset + 1 < body.instructions.length) :
    Covered body startLocals (block.start + offset + 1) (body.depthBehind depth instruction) := by
  by_cases last : offset + 1 = block.instructions.length
  · obtain ⟨target, targetBlock, noted, targetFound, before, behind⟩ :=
      exists_block_covering inside
    have stop_eq : block.start + offset + 1 = block.stop := by
      simp only [Block.stop]
      omega
    rw [stop_eq] at noted before behind ⊢
    have goes : GoesTo body block target := by
      refine ⟨instruction, ?_, Or.inr ⟨falls, noted⟩⟩
      rw [List.getLast?_eq_getElem?, ← last, Nat.add_sub_cancel, instruction_eq]
    obtain ⟨deeper, targetCovers⟩ :=
      covers_goesTo filled once covers instruction_eq last targetFound goes
    exact ⟨target, targetBlock, deeper, 0,
      (start_eq_of_covers_stop covers.found targetFound before behind).symm, targetCovers⟩
  · have further : offset + 1 < block.instructions.length := by
      have := covers.inside
      omega
    have le := covers.depthBehind_le once instruction_eq
    refine ⟨index, block, entry, offset + 1, by omega, covers.found, covers.entered, further,
      Nat.le_trans le
        (replay_le_countedMaxes filled covers.found covers.entered covers.inside), ?_⟩
    intro _ _ _
    exact le

/-- The position of a label that an instruction jumps to is covered. -/
theorem Covers.jump
    (covers : Covers body startLocals index block entry offset depth)
    (once : body.PlacesLabelsOnce)
    (instruction_eq : block.instructions[offset]? = some instruction)
    {label : Label}
    (jumps : label ∈ instruction.jumpTargets)
    {target : Nat}
    (placed : body.positionOf? label = some target) :
    Covered body startLocals target (body.depthBehind depth instruction) := by
  have last := offset_eq_of_leaves covers.found instruction_eq
    (Or.inr (List.ne_nil_of_mem jumps))
  obtain ⟨number, targetBlock, noted, targetFound, before, behind⟩ :=
    exists_block_covering (Body.lt_of_positionOf? placed)
  have goes : GoesTo body block number := by
    refine ⟨instruction, ?_, Or.inl ⟨label, jumps, target, placed, noted⟩⟩
    rw [List.getLast?_eq_getElem?, ← last, Nat.add_sub_cancel, instruction_eq]
  obtain ⟨deeper, targetCovers⟩ :=
    covers_goesTo filled once covers instruction_eq last targetFound goes
  have at_position := (getElem?_instructions covers.found covers.inside).symm.trans instruction_eq
  exact ⟨number, targetBlock, deeper, 0,
    (start_eq_of_leads targetFound before behind
      (leads_of_mem_jumpTargets at_position jumps placed)).symm, targetCovers⟩

/-- The handler of a range that covers the position is covered. -/
theorem Covers.throw
    (covers : Covers body startLocals index block entry offset depth)
    {range : ExceptionRange}
    {start stop handler : Nat}
    (places : body.Places range start stop handler)
    (within : start ≤ block.start + offset)
    (before : block.start + offset < stop) :
    Covered body startLocals handler 1 := by
  obtain ⟨number, targetBlock, noted, targetFound, targetBefore, targetBehind⟩ :=
    exists_block_covering (Body.lt_of_positionOf? places.handler_eq)
  obtain ⟨first, last⟩ := covers_start_of_places covers.found places (Nat.le_add_right _ _)
    (Nat.add_lt_add_left covers.inside _) within before
  obtain ⟨types, present⟩ := (exception_mem_successors_iff covers.found).mpr
    ⟨range, start, stop, handler, places, first, last, noted⟩
  have crosses : (ofBody body).Crosses index block (.exception types) number targetBlock :=
    ⟨covers.found, present, targetFound⟩
  obtain ⟨deeper, deeper_eq, deep⟩ :=
    (settled_countRun filled covers.found covers.entered).2 _ _ _ crosses
  obtain ⟨same, targetCovers⟩ := covers_crosses filled crosses covers.entered
    (Nat.le_trans deep
      (replay_le_countedMaxes filled targetFound deeper_eq (Nat.zero_le _)))
    (fun normal => by simp at normal)
  exact ⟨number, targetBlock, same, 0,
    (start_eq_of_leads targetFound targetBefore targetBehind (leads_of_places places).2.2).symm,
    targetCovers⟩

variable (startLocals) in
/-- Whatever the machine reaches is covered. -/
theorem covered_of_depthReached
    (once : body.PlacesLabelsOnce)
    {position depth : Nat}
    (reached : body.DepthReached position depth) :
    Covered body startLocals position depth := by
  induction reached with
  | entry _ => exact covered_entry startLocals filled once
  | next _ at_position falls inside hypothesis =>
      obtain ⟨index, block, entry, offset, rfl, covers⟩ := hypothesis
      exact covers.next filled once
        ((getElem?_instructions covers.found covers.inside).trans at_position) falls inside
  | jump _ at_position jumps placed hypothesis =>
      obtain ⟨index, block, entry, offset, rfl, covers⟩ := hypothesis
      exact covers.jump filled once
        ((getElem?_instructions covers.found covers.inside).trans at_position) jumps placed
  | throw _ places within before hypothesis =>
      obtain ⟨index, block, entry, offset, rfl, covers⟩ := hypothesis
      exact covers.throw filled places within before

/-- The greatest depth of the count is the greatest one that the machine meets. -/
theorem isGreatest_maxStack (once : body.PlacesLabelsOnce) :
    IsGreatest (insert 0 body.depthsMet) (countedMaxes body startLocals).maxStack := by
  constructor
  · refine Maxes.foldl_raise_induction (fun maxes => maxes.maxStack ∈ insert 0 body.depthsMet)
      (Set.mem_insert 0 _) ?_
    intro maxes entry present isMet
    obtain ⟨_, met⟩ := (sound_countRun startLocals filled once).exists_valid present
    rw [Maxes.raise]
    split
    · exact max_mem isMet met.maxDepth_mem
    · exact isMet
  · rintro _ (rfl | ⟨position, depth, instruction, reached, at_position, which⟩)
    · exact Nat.zero_le _
    · obtain ⟨index, block, entry, offset, rfl, covers⟩ :=
        covered_of_depthReached startLocals filled once reached
      have instruction_eq := (getElem?_instructions covers.found covers.inside).trans at_position
      rcases which with rfl | rfl
      · exact covers.le_maxStack
      · exact Nat.le_trans (covers.depthBehind_le once instruction_eq)
          (replay_le_countedMaxes filled covers.found covers.entered covers.inside)

/-- The greatest number of locals of the count is the greatest one that the machine
meets, or the one at the start. -/
theorem isGreatest_maxLocals (once : body.PlacesLabelsOnce) :
    IsGreatest (insert startLocals body.localsMet) (countedMaxes body startLocals).maxLocals := by
  constructor
  · have seen : (countedMaxes body startLocals).maxLocals ∈ body.localsSeen startLocals := by
      refine Maxes.foldl_raise_induction
        (fun maxes => maxes.maxLocals ∈ body.localsSeen startLocals)
        (Set.mem_insert_of_mem _ (Set.mem_insert startLocals _)) ?_
      intro maxes entry present isSeen
      obtain ⟨_, met⟩ := (sound_countRun startLocals filled once).exists_valid present
      rw [Maxes.raise]
      split
      · exact max_mem isSeen met.maxLocals_mem
      · exact isSeen
    rcases seen with none_ | seen
    · exact Or.inl (Nat.le_antisymm (none_ ▸ Nat.zero_le startLocals) startLocals_le_maxLocals)
    · exact seen
  · rintro _ (rfl | ⟨position, depth, instruction, first, width, reached, at_position, slots_eq,
      rfl⟩)
    · exact startLocals_le_maxLocals
    · obtain ⟨index, block, entry, offset, rfl, covers⟩ :=
        covered_of_depthReached startLocals filled once reached
      have instruction_eq := (getElem?_instructions covers.found covers.inside).trans at_position
      have counted := (settled_countRun filled covers.found covers.entered).1.2
      have needed := (localsNeeded_le_iff.mp counted).2 instruction
        (List.mem_of_getElem? instruction_eq)
      have entered : (countedNotes body startLocals index).inputDepth.isSome := by
        simp [covers.entered]
      have covered := (le_countedMaxes covers.found entered).2
      rw [Instruction.localsNeeded, slots_eq] at needed
      exact Nat.le_trans needed covered

end Finished

end FlowGraph

namespace Session

/-- Without instructions the limits are those at the start. -/
theorem computeMaxes_of_empty
    {body : Body}
    (empty : body.instructions = [])
    (startLocals : Nat) :
    (ofBody body).computeMaxes startLocals = (⟨startLocals, 0⟩, ofBody body) := by
  have outcome : (FlowGraph.ofBody body).countDepths body.instructions startLocals
      ((ofBody body).notes.map Notes.wipe) = (⟨startLocals, 0⟩, (ofBody body).notes) := by
    rw [map_wipe_notes_ofBody]
    exact if_pos (FlowGraph.isEmpty_blocks empty)
  have maxes_eq : ((ofBody body).computeMaxes startLocals).1 = ⟨startLocals, 0⟩ :=
    congrArg Prod.fst outcome
  have session_eq : ((ofBody body).computeMaxes startLocals).2 = ofBody body :=
    congrArg (fun result => { ofBody body with notes := result.2 }) outcome
  exact Prod.ext maxes_eq session_eq

/-- The limits and the notes are read off the last moment of the count. -/
theorem computeMaxes_eq
    {body : Body}
    (filled : body.instructions ≠ [])
    (startLocals : Nat) :
    ((ofBody body).computeMaxes startLocals).1 = FlowGraph.countedMaxes body startLocals ∧
      ((ofBody body).computeMaxes startLocals).2.notes =
        ((FlowGraph.ofBody body).countRun body.instructions startLocals).notes := by
  have outcome := FlowGraph.countDepths_eq (FlowGraph.size_blocks_pos filled) body.instructions
    startLocals (size_notes_ofBody body)
  exact ⟨congrArg Prod.fst outcome, congrArg Prod.snd outcome⟩

/-- Counting the depths of a body ends with no block waiting, and finds exactly the
greatest depth of the stack and the greatest number of locals that are met on the
paths through the body. -/
theorem isGreatest_computeMaxes
    (body : Body)
    (startLocals : Nat)
    (once : body.PlacesLabelsOnce) :
    IsGreatest (insert 0 body.depthsMet) ((ofBody body).computeMaxes startLocals).1.maxStack ∧
      IsGreatest (insert startLocals body.localsMet)
        ((ofBody body).computeMaxes startLocals).1.maxLocals ∧
      (body.instructions ≠ [] → ∃ finished,
        Progress.Reaches ((FlowGraph.ofBody body).visitDepth body.depthLimit)
          ((FlowGraph.ofBody body).opening (Notes.enterWith startLocals)) finished ∧
        finished.worklist.toList = [] ∧
        ((ofBody body).computeMaxes startLocals).2.notes = finished.notes) := by
  by_cases empty : body.instructions = []
  · have unreached : ∀ (position : Nat) (instruction : Instruction),
        body.instructions[position]? ≠ some instruction := by
      simp [empty]
    rw [computeMaxes_of_empty empty]
    refine ⟨⟨Set.mem_insert 0 _, ?_⟩, ⟨Set.mem_insert startLocals _, ?_⟩, fun filled =>
      absurd empty filled⟩
    · rintro _ (rfl | ⟨position, _, instruction, _, found, _⟩)
      · exact Nat.le_refl 0
      · exact absurd found (unreached position instruction)
    · rintro _ (rfl | ⟨position, _, instruction, _, _, _, found, _⟩)
      · exact Nat.le_refl _
      · exact absurd found (unreached position instruction)
  · obtain ⟨maxes_eq, notes_eq⟩ := computeMaxes_eq empty startLocals
    rw [maxes_eq, notes_eq]
    exact ⟨FlowGraph.isGreatest_maxStack empty once, FlowGraph.isGreatest_maxLocals empty once,
      fun _ => ⟨_, Progress.reaches_run _ _, FlowGraph.drains_countRun startLocals empty, rfl⟩⟩

/-- A loop that pushes a number each time round, protected by a handler that stores
the exception. -/
def growingLoop : Body :=
  .ofInstructions
    [.mark ⟨0⟩, .simple .iconst0, .mark ⟨1⟩, .branch .goto ⟨0⟩, .mark ⟨2⟩, .simple .astore3,
      .simple .returnVoid]
    [⟨⟨0⟩, ⟨1⟩, ⟨2⟩, none⟩] ⟨3⟩

/-- The loop grows up to the limit, and the count of it is exact. -/
theorem isGreatest_computeMaxes_growingLoop :
    growingLoop.PlacesLabelsOnce ∧
      IsGreatest (insert 0 growingLoop.depthsMet)
        ((ofBody growingLoop).computeMaxes 0).1.maxStack ∧
      IsGreatest (insert 0 growingLoop.localsMet)
        ((ofBody growingLoop).computeMaxes 0).1.maxLocals :=
  have once : growingLoop.PlacesLabelsOnce := by decide
  have ⟨depths, locals, _⟩ := isGreatest_computeMaxes growingLoop 0 once
  ⟨once, depths, locals⟩

end Session

end StackMaps
