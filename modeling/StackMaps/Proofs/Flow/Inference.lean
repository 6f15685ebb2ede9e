import StackMaps.Proofs.Flow.Draining
import StackMaps.Proofs.Flow.Interpretation
import StackMaps.Proofs.Flow.Merging
import StackMaps.Proofs.Flow.Settling
import StackMaps.Proofs.Slots.Weight

/-!
# Inference as an analysis

The number of slots at the entry of a block is bounded by the locals that the body
needs and the depth that passes along an edge. Up to the threshold the visits of
a block are counted, and from then on every change of an entry makes its slots
heavier. So the inference ends over every hierarchy.
-/

namespace StackMaps

/-- The inference as an analysis. What is known of an entry are its slots. -/
def typeAnalysis (context : TypingContext) : Analysis SlotState where
  entry := Notes.inputState
  transfer block notes := block.interpret context notes
  receive block edge source notes :=
    block.merge context.hierarchy (context.threshold ≤ notes.visits) edge.isException
      (edge.carried context source) notes

/-- The notes on the first block before the inference. -/
def Notes.enterState (locals : List Slot) (notes : Notes) : Notes :=
  { notes with inputState := some ⟨locals, .empty⟩ }

namespace TypeAnalysis

variable {context : TypingContext} {graph : FlowGraph}

/-- The laws of the inference, given that what is valid stays so. -/
theorem lawful
    {Valid : Nat → Notes → Prop}
    (valid_transfer : ∀ index block notes,
      graph.blocks[index]? = some block →
      notes.inputState.isSome →
      Valid index notes →
      Valid index (block.interpret context notes))
    (valid_receive : ∀ index block edge target targetBlock notes known,
      graph.Crosses index block edge target targetBlock →
      notes.inputState.isSome →
      Valid index notes →
      Valid target known →
      Valid target ((typeAnalysis context).receive targetBlock edge
        (block.interpret context notes) known)) :
    (typeAnalysis context).Lawful graph Valid where
  entry_transfer _ _ := rfl
  entry_receive _ _ _ _ := Block.isSome_inputState_merge
  valid_transfer := valid_transfer
  valid_receive := valid_receive

theorem lawful_true (graph : FlowGraph) : (typeAnalysis context).Lawful graph fun _ _ => True :=
  lawful (fun _ _ _ _ _ _ => trivial) fun _ _ _ _ _ _ _ _ _ _ _ => trivial

/-- The books are in order before the first visit. -/
theorem sound_opening (filled : 0 < graph.blocks.size) (locals : List Slot) :
    (typeAnalysis context).Sound graph (fun _ _ => True)
      (graph.opening (Notes.enterState locals)) :=
  Analysis.Sound.opening filled rfl trivial fun _ _ => trivial

/-! ## Bounds -/

/-- The entry of a block has no more slots than the given locals, one more, and the
given depth. A handler finds the exception on the stack, or nothing. -/
structure Confined (limit locals : Nat) (block : Block) (notes : Notes) : Prop where
  locals_le : ∀ state, notes.inputState = some state → state.locals.length ≤ locals + 1
  depth_le : ∀ state, notes.inputState = some state → state.stack.depth ≤ limit
  stack_eq : ∀ state, notes.inputState = some state → block.handlers ≠ [] →
    state.stack.slots = [] ∨ state.stack.slots = [notes.caught]

section Bounds

variable {locals : Nat} {block : Block} {notes : Notes} {state : SlotState}

/-- No more than one local slot is made to exist beyond those that are needed. -/
theorem length_locals_stateAt_le
    (needs : ∀ instruction ∈ block.instructions, instruction.localsNeeded ≤ locals)
    (within : state.locals.length ≤ locals + 1)
    (offset : Nat) :
    (block.stateAt context.method state offset).locals.length ≤ locals + 1 := by
  refine Block.length_locals_stateAt_le within ?_ offset
  intro place instruction found
  exact Nat.le_trans (SlotState.endOfLocals_le _ instruction)
    (Nat.succ_le_succ (needs instruction (List.mem_of_getElem? found)))

/-- No more locals are passed on than exist at any point of the block. -/
theorem length_locals_carried_le
    {bound : Nat}
    (entered : notes.inputState = some state)
    (within : ∀ offset, (block.stateAt context.method state offset).locals.length ≤ bound)
    (edge : Edge) :
    (edge.carried context (block.interpret context notes)).locals.length ≤ bound := by
  cases edge with
  | normal =>
      simp only [Edge.carried, Block.outputState_interpret, entered, Option.getD_some]
      exact within _
  | exception types =>
      refine Block.length_exceptionLocals_le fun offset => ?_
      rw [entered]
      exact within offset

theorem depth_carried_le (positive : 1 ≤ context.stackLimit) (edge : Edge) :
    (edge.carried context notes).stack.depth ≤ context.stackLimit := by
  cases edge with
  | normal =>
      simp only [Edge.carried, Stack.drop]
      omega
  | exception types => exact positive

/-- A merge keeps within the bounds. -/
theorem Confined.merge
    {limit : Nat}
    {hierarchy : Hierarchy}
    {widen fromException : Bool}
    {incoming : SlotState}
    (confined : Confined limit locals block notes)
    (positive : 1 ≤ limit)
    (few : incoming.locals.length ≤ locals + 1)
    (shallow : incoming.stack.depth ≤ limit) :
    Confined limit locals block
      (block.merge hierarchy widen fromException incoming notes) := by
  have locals_le := (Block.length_mergedLocals_le_iff hierarchy widen).mpr
    ⟨few, confined.locals_le⟩
  by_cases plain : block.handlers = []
  · have depth_le := (Block.depth_mergedStack_le_iff hierarchy widen).mpr
      ⟨shallow, confined.depth_le⟩
    rw [Block.merge_of_handlers_eq_nil plain]
    exact ⟨fun _ same => Option.some.inj same ▸ locals_le,
      fun _ same => Option.some.inj same ▸ depth_le, fun _ _ handles => absurd plain handles⟩
  · rw [Block.merge_of_handlers_ne_nil plain]
    exact ⟨fun _ same => Option.some.inj same ▸ locals_le,
      fun _ same => Option.some.inj same ▸ positive,
      fun _ same _ => Option.some.inj same ▸ Or.inr rfl⟩

end Bounds

/-! ## Weights -/

/-- The weight of the slots at the entry of a block, with one more if it is reached and
one more if an exception has been caught. -/
def weight (notes : Notes) : Nat :=
  (match notes.inputState with
    | none => 0
    | some state => 1 + slotsWeight state.locals + slotsWeight state.stack.slots) +
    if notes.caught.isSome then 1 else 0

section Weights

variable {limit locals : Nat} {block : Block} {notes : Notes}
variable {hierarchy : Hierarchy} {widen fromException : Bool} {incoming : SlotState}

theorem Confined.weight_le (confined : Confined limit locals block notes) :
    weight notes ≤ 2 * (limit + locals) + 4 := by
  have caught : (if notes.caught.isSome then 1 else 0) ≤ 1 := by split <;> decide
  unfold weight
  cases entered : notes.inputState with
  | none =>
      simp only
      omega
  | some state =>
      have many := confined.locals_le state entered
      have deep := confined.depth_le state entered
      rw [state.stack.depth_eq] at deep
      have := slotsWeight_le state.locals
      have := slotsWeight_le state.stack.slots
      simp only
      omega

/-- A caught exception is not forgotten, and its slot does not get lighter. -/
theorem weight_mergedCaught_le :
    (if notes.caught.isSome then 1 else 0) ≤
        (if (Block.mergedCaught hierarchy widen fromException incoming notes).isSome then 1
          else 0) ∧
      slotWeight notes.caught ≤
        slotWeight (Block.mergedCaught hierarchy widen fromException incoming notes) := by
  rcases Block.mergedCaught_eq_or hierarchy widen fromException incoming notes with
    same | ⟨adds, merged_eq⟩
  · rw [same]
    exact ⟨Nat.le_refl _, Nat.le_refl _⟩
  · have other : notes.caught ≠ some .top :=
      fun isTop => adds (by rw [isTop]; exact Hierarchy.slotLe_top _)
    rw [slotWeight_of_ne_top other]
    refine ⟨?_, slotWeight_pos _⟩
    rw [merged_eq]
    cases notes.caught with
    | none => exact Nat.zero_le _
    | some type => cases widen <;> cases incoming.peek <;> exact Nat.le_refl _

/-- A caught exception that changes under widening is a new one or becomes heavier. -/
theorem weight_mergedCaught_lt
    (changed : Block.mergedCaught hierarchy true fromException incoming notes ≠ notes.caught) :
    (if notes.caught.isSome then 1 else 0) + slotWeight notes.caught <
      (if (Block.mergedCaught hierarchy true fromException incoming notes).isSome then 1
          else 0) +
        slotWeight (Block.mergedCaught hierarchy true fromException incoming notes) := by
  rcases Block.mergedCaught_eq_or hierarchy true fromException incoming notes with
    same | ⟨adds, merged_eq⟩
  · exact absurd same changed
  · have other : notes.caught ≠ some .top :=
      fun isTop => adds (by rw [isTop]; exact Hierarchy.slotLe_top _)
    rw [slotWeight_of_ne_top other, merged_eq]
    cases caught_eq : notes.caught with
    | none =>
        rw [caught_eq] at adds
        cases peek_eq : incoming.peek with
        | none => exact absurd peek_eq adds
        | some type =>
            have := slotWeight_pos (some type)
            simp only [Hierarchy.join, Option.isSome, Bool.and_false, Bool.false_eq_true,
              if_false, if_true]
            omega
    | some type => exact Nat.lt_succ_self 2

variable (hierarchy widen incoming) in
theorem weight_mergedLocals_le
    {state : SlotState}
    (entered : notes.inputState = some state) :
    slotsWeight state.locals ≤
      slotsWeight (Block.mergedLocals hierarchy widen incoming notes) := by
  rw [Block.mergedLocals, entered]
  exact Hierarchy.slotsWeight_mergeSlots_le _ _

theorem weight_mergedLocals_lt
    {state : SlotState}
    (entered : notes.inputState = some state)
    (changed : Block.mergedLocals hierarchy true incoming notes ≠ state.locals) :
    slotsWeight state.locals <
      slotsWeight (Block.mergedLocals hierarchy true incoming notes) := by
  rw [Block.mergedLocals, entered] at changed ⊢
  exact Hierarchy.slotsWeight_mergeSlots_lt changed

variable (hierarchy widen incoming) in
theorem weight_mergedStack_le
    {state : SlotState}
    (entered : notes.inputState = some state) :
    slotsWeight state.stack.slots ≤
      slotsWeight (Block.mergedStack hierarchy widen incoming notes).slots := by
  rw [Block.mergedStack, entered]
  exact Hierarchy.slotsWeight_mergeStack_le _ _

theorem weight_mergedStack_lt
    {state : SlotState}
    (entered : notes.inputState = some state)
    (changed : Block.mergedStack hierarchy true incoming notes ≠ state.stack) :
    slotsWeight state.stack.slots <
      slotsWeight (Block.mergedStack hierarchy true incoming notes).slots := by
  rw [Block.mergedStack, entered] at changed ⊢
  exact Hierarchy.slotsWeight_mergeStack_lt changed

/-- No merge makes the notes lighter. -/
theorem Confined.weight_le_merge (confined : Confined limit locals block notes) :
    weight notes ≤ weight (block.merge hierarchy widen fromException incoming notes) := by
  obtain ⟨caught_le, slot_le⟩ := @weight_mergedCaught_le notes hierarchy widen fromException
    incoming
  by_cases plain : block.handlers = []
  · rw [Block.merge_of_handlers_eq_nil plain]
    unfold weight
    cases entered : notes.inputState with
    | none =>
        simp only
        omega
    | some state =>
        have := weight_mergedLocals_le hierarchy widen incoming entered
        have := weight_mergedStack_le hierarchy widen incoming entered
        simp only
        omega
  · rw [Block.merge_of_handlers_ne_nil plain]
    unfold weight
    cases entered : notes.inputState with
    | none =>
        simp only
        omega
    | some state =>
        have := weight_mergedLocals_le hierarchy widen incoming entered
        have stack_le : slotsWeight state.stack.slots ≤ slotWeight notes.caught := by
          rcases confined.stack_eq state entered plain with empty | single
          · rw [empty]
            exact Nat.zero_le _
          · rw [single]
            exact Nat.le_refl _
        simp only [Stack.slots_ofList, slotsWeight_cons, slotsWeight_nil]
        omega

theorem weight_lt_merge_of_handlers_eq_nil
    (plain : block.handlers = [])
    (changed : (block.merge hierarchy true fromException incoming notes).inputState ≠
      notes.inputState) :
    weight notes < weight (block.merge hierarchy true fromException incoming notes) := by
  rw [Block.merge_of_handlers_eq_nil plain] at changed ⊢
  unfold weight
  cases entered : notes.inputState with
  | none =>
      simp only
      omega
  | some state =>
      have locals_le := weight_mergedLocals_le hierarchy true incoming entered
      have stack_le := weight_mergedStack_le hierarchy true incoming entered
      simp only
      by_cases locals_eq : Block.mergedLocals hierarchy true incoming notes = state.locals
      · have stack_ne : Block.mergedStack hierarchy true incoming notes ≠ state.stack := by
          intro stack_eq
          exact changed (by rw [entered, locals_eq, stack_eq])
        have := weight_mergedStack_lt entered stack_ne
        omega
      · have := weight_mergedLocals_lt entered locals_eq
        omega

theorem Confined.weight_lt_merge_of_handlers_ne_nil
    (confined : Confined limit locals block notes)
    (handles : block.handlers ≠ [])
    (changed : (block.merge hierarchy true fromException incoming notes).inputState ≠
      notes.inputState) :
    weight notes < weight (block.merge hierarchy true fromException incoming notes) := by
  obtain ⟨caught_le, slot_le⟩ := @weight_mergedCaught_le notes hierarchy true fromException
    incoming
  rw [Block.merge_of_handlers_ne_nil handles] at changed ⊢
  unfold weight
  cases entered : notes.inputState with
  | none =>
      simp only
      omega
  | some state =>
      have locals_le := weight_mergedLocals_le hierarchy true incoming entered
      simp only [Stack.slots_ofList, slotsWeight_cons, slotsWeight_nil]
      rcases confined.stack_eq state entered handles with empty | single
      · have := slotWeight_pos
          (Block.mergedCaught hierarchy true fromException incoming notes)
        rw [empty, slotsWeight_nil]
        omega
      · rw [single, slotsWeight_cons, slotsWeight_nil]
        by_cases locals_eq : Block.mergedLocals hierarchy true incoming notes = state.locals
        · have caught_ne : Block.mergedCaught hierarchy true fromException incoming notes ≠
              notes.caught := by
            intro caught_eq
            refine changed ?_
            rw [entered, locals_eq, caught_eq]
            exact congrArg (fun stack => some (SlotState.mk state.locals stack))
              (Stack.ext single.symm)
          have := weight_mergedCaught_lt caught_ne
          omega
        · have := weight_mergedLocals_lt entered locals_eq
          omega

/-- A widened merge that changes the entry makes the notes heavier. -/
theorem Confined.weight_lt_merge
    (confined : Confined limit locals block notes)
    (changed : (block.merge hierarchy true fromException incoming notes).inputState ≠
      notes.inputState) :
    weight notes < weight (block.merge hierarchy true fromException incoming notes) := by
  by_cases plain : block.handlers = []
  · exact weight_lt_merge_of_handlers_eq_nil plain changed
  · exact confined.weight_lt_merge_of_handlers_ne_nil plain changed

end Weights

/-! ## The end of the inference -/

section Ending

variable {locals : Nat}

/-- The notes on a block are within the bounds. -/
def Within (graph : FlowGraph) (limit locals index : Nat) (notes : Notes) : Prop :=
  ∀ block, graph.blocks[index]? = some block → Confined limit locals block notes

variable (positive : 1 ≤ context.stackLimit)
variable (needs : ∀ (index : Nat) (block : Block), graph.blocks[index]? = some block →
  ∀ instruction ∈ block.instructions, instruction.localsNeeded ≤ locals)

include positive needs

/-- What a successor receives keeps it within the bounds. -/
theorem Within.receive
    {index target : Nat}
    {block targetBlock : Block}
    {edge : Edge}
    {notes known : Notes}
    (crosses : graph.Crosses index block edge target targetBlock)
    (entered : notes.inputState.isSome)
    (within : Within graph context.stackLimit locals index notes)
    (targetWithin : Within graph context.stackLimit locals target known) :
    Within graph context.stackLimit locals target
      ((typeAnalysis context).receive targetBlock edge (block.interpret context notes) known) := by
  intro same same_eq
  obtain rfl := Option.some.inj (crosses.target_eq.symm.trans same_eq)
  obtain ⟨state, state_eq⟩ := Option.isSome_iff_exists.mp entered
  exact (targetWithin targetBlock crosses.target_eq).merge positive
    (length_locals_carried_le state_eq
      (length_locals_stateAt_le (needs index block crosses.source_eq)
        ((within block crosses.source_eq).locals_le state state_eq)) edge)
    (depth_carried_le positive edge)

theorem lawful_within :
    (typeAnalysis context).Lawful graph (Within graph context.stackLimit locals) :=
  lawful
    (fun _ _ _ _ _ within same same_eq =>
      ⟨(within same same_eq).locals_le, (within same same_eq).depth_le,
        (within same same_eq).stack_eq⟩)
    (fun _ _ _ _ _ _ _ crosses entered within targetWithin =>
      within.receive positive needs crosses entered targetWithin)

/-- The visits up to the threshold and the weight that is still missing pay for the
visits to come. -/
def budget : (typeAnalysis context).Budget graph (Within graph context.stackLimit locals) where
  credit _ notes :=
    (context.threshold - notes.visits) +
      (2 * (context.stackLimit + locals) + 4 - weight notes)
  cost notes := if context.threshold ≤ notes.visits then 1 else 0
  credit_transfer _ block notes _ _ _ := by
    have weight_eq : weight (block.interpret context notes) = weight notes := rfl
    simp only [typeAnalysis, weight_eq, Block.visits_interpret]
    split <;> omega
  cost_receive _ _ _ _ := by
    simp only [typeAnalysis, Block.visits_merge]
  credit_receive index block edge target targetBlock notes known crosses _ _ targetWithin := by
    have heavier : weight known ≤
        weight ((typeAnalysis context).receive targetBlock edge
          (block.interpret context notes) known) :=
      (targetWithin targetBlock crosses.target_eq).weight_le_merge
    simp only [typeAnalysis, Block.visits_merge] at heavier ⊢
    omega
  credit_change index block edge target targetBlock notes known crosses entered within
      targetWithin changed := by
    have bounded := (Within.receive positive needs crosses entered within targetWithin
      targetBlock crosses.target_eq).weight_le
    have confined := targetWithin targetBlock crosses.target_eq
    simp only [typeAnalysis, Block.visits_merge] at bounded changed ⊢
    by_cases late : context.threshold ≤ known.visits
    · simp only [late, decide_true, if_true] at bounded changed ⊢
      have heavier := confined.weight_lt_merge changed
      omega
    · simp only [late, decide_false, if_false] at bounded changed ⊢
      have heavier : weight known ≤
          weight (targetBlock.merge context.hierarchy false edge.isException
            (edge.carried context (block.interpret context notes)) known) :=
        confined.weight_le_merge
      omega

omit positive needs in
/-- The bounds hold before the first visit. -/
theorem sound_within
    (filled : 0 < graph.blocks.size)
    {entry : List Slot}
    (length_eq : entry.length = locals) :
    (typeAnalysis context).Sound graph (Within graph context.stackLimit locals)
      (graph.opening (Notes.enterState entry)) := by
  refine Analysis.Sound.opening filled rfl ?_ fun _ _ _ _ => ?_
  · intro block _
    refine ⟨?_, ?_, ?_⟩
    · rintro _ ⟨⟩
      exact Nat.le_succ_of_le (Nat.le_of_eq length_eq)
    · rintro _ ⟨⟩
      exact Nat.zero_le _
    · rintro _ ⟨⟩ _
      exact Or.inl rfl
  · exact ⟨fun _ absent => by simp [Notes.blank] at absent,
      fun _ absent => by simp [Notes.blank] at absent,
      fun _ absent => by simp [Notes.blank] at absent⟩

/-- Before the first visit every block has the threshold and the weight of all its slots
to its credit. -/
theorem measure_opening_le
    (filled : 0 < graph.blocks.size)
    (entry : List Slot) :
    (budget positive needs).measure (graph.opening (Notes.enterState entry)) ≤
      graph.blocks.size * (context.threshold + 2 * (context.stackLimit + locals) + 4) + 1 := by
  have credit_le : ∀ notes : Notes,
      (context.threshold - notes.visits) +
        (2 * (context.stackLimit + locals) + 4 - weight notes) ≤
      context.threshold + 2 * (context.stackLimit + locals) + 4 := by
    intro notes
    omega
  have cost_le : (budget positive needs).cost (Notes.enterState entry .blank) ≤ 1 := by
    simp only [budget]
    split <;> decide
  exact ((budget positive needs).measure_opening_le filled (credit_le _)
    fun _ => credit_le _).trans (Nat.add_le_add_left cost_le _)

/-- The inference ends with nobody waiting. -/
theorem drains
    (closed : graph.Closed)
    (filled : 0 < graph.blocks.size)
    {entry : List Slot}
    (length_eq : entry.length = locals) :
    (Progress.run (graph.visitTypes context) (graph.typingFuel context locals)
      (graph.opening (Notes.enterState entry))).worklist.toList = [] := by
  refine (budget positive needs).drains closed (lawful_within positive needs)
    (sound_within filled length_eq) ?_
  calc (budget positive needs).measure (graph.opening (Notes.enterState entry))
      ≤ graph.blocks.size * (context.threshold + 2 * (context.stackLimit + locals) + 4) + 1 :=
        measure_opening_le positive needs filled entry
    _ ≤ graph.blocks.size * (context.threshold + 2 * (context.stackLimit + locals) + 16) + 1 :=
        Nat.add_le_add_right (Nat.mul_le_mul_left _ (by omega)) 1

end Ending

end TypeAnalysis

end StackMaps
