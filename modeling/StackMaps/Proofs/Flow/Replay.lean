import StackMaps.Flow.Depth

/-!
# Replaying depths

The depths along a block are replayed from the depth at its entry. A visit of the
count finds the last of them, the greatest, and the greatest number of locals
that an instruction needs.
-/

namespace StackMaps

/-! ## The greatest value along a fold -/

namespace Greatest

variable {State Entry : Type} {step : State → Entry → State}
variable {value greatest : State → Nat}

/-- The greater one of two numbers is one of them. -/
theorem max_induction
    {left right : Nat}
    (Holds : Nat → Prop)
    (atLeft : Holds left)
    (atRight : Holds right) :
    Holds (max left right) := by
  rcases Nat.le_total left right with le | le
  · rwa [Nat.max_eq_right le]
  · rwa [Nat.max_eq_left le]

/-- A value is covered in the end exactly if it is covered at the start and everything
that the steps take in is covered. -/
theorem foldl_le_iff
    {bound : Nat}
    {Covered : Entry → Prop}
    (value : State → Nat)
    (step_le_iff : ∀ state entry,
      value (step state entry) ≤ bound ↔ value state ≤ bound ∧ Covered entry)
    {entries : List Entry}
    {start : State} :
    value (entries.foldl step start) ≤ bound ↔
      value start ≤ bound ∧ ∀ entry ∈ entries, Covered entry := by
  induction entries generalizing start with
  | nil => simp
  | cons entry rest hypothesis =>
      rw [List.foldl_cons, hypothesis, step_le_iff, List.forall_mem_cons, and_assoc]

variable (greatest_step : ∀ state entry,
  greatest (step state entry) = max (greatest state) (value (step state entry)))

include greatest_step

/-- The greatest value is the one at the start or one that has been met. -/
theorem foldl_induction
    (Holds : Nat → Prop)
    {entries : List Entry}
    {start : State}
    (before : Holds (greatest start))
    (met : ∀ offset ≤ entries.length, Holds (value ((entries.take offset).foldl step start))) :
    Holds (greatest (entries.foldl step start)) := by
  induction entries generalizing start with
  | nil => exact before
  | cons entry rest hypothesis =>
      refine hypothesis ?_ fun offset le => met (offset + 1) (Nat.succ_le_succ le)
      rw [greatest_step]
      exact max_induction Holds before (met 1 (by simp))

/-- No value that has been met is above the greatest one. -/
theorem le_foldl
    {entries : List Entry}
    {start : State}
    (before : value start ≤ greatest start)
    {offset : Nat}
    (le : offset ≤ entries.length) :
    value ((entries.take offset).foldl step start) ≤ greatest (entries.foldl step start) := by
  have grown : ∀ (entries : List Entry) (start : State),
      greatest start ≤ greatest (entries.foldl step start) := by
    intro entries
    induction entries with
    | nil => exact fun _ => Nat.le_refl _
    | cons entry rest hypothesis =>
        intro start
        refine Nat.le_trans ?_ (hypothesis (step start entry))
        rw [greatest_step]
        exact Nat.le_max_left _ _
  induction entries generalizing start offset with
  | nil => simpa using before
  | cons entry rest hypothesis =>
      cases offset with
      | zero => exact Nat.le_trans before (grown (entry :: rest) start)
      | succ offset =>
          refine hypothesis ?_ (Nat.le_of_succ_le_succ le)
          rw [greatest_step]
          exact Nat.le_max_right _ _

end Greatest

namespace Block

variable (block : Block) (limit : Nat)

/-- The depth in front of the instruction at an offset, if the block is entered with
the given depth. -/
def replay (depth offset : Nat) : Nat :=
  (block.instructions.take offset).foldl (block.depthAfter limit) depth

variable {block : Block} {limit : Nat}

theorem replay_succ
    {offset : Nat}
    {instruction : Instruction}
    (found : block.instructions[offset]? = some instruction)
    (depth : Nat) :
    block.replay limit depth (offset + 1) =
      block.depthAfter limit (block.replay limit depth offset) instruction := by
  rw [replay, List.take_add_one, found]
  simp [replay]

theorem depthAfter_le
    (positive : 1 ≤ limit)
    (depth : Nat)
    (instruction : Instruction) :
    block.depthAfter limit depth instruction ≤ limit := by
  simp only [depthAfter]
  split
  · exact positive
  · exact Nat.min_le_right _ _

/-- Depths do not leave the limit. -/
theorem replay_le
    (positive : 1 ≤ limit)
    {depth : Nat}
    (le : depth ≤ limit)
    (offset : Nat) :
    block.replay limit depth offset ≤ limit := by
  induction offset with
  | zero => exact le
  | succ offset hypothesis =>
      cases found : block.instructions[offset]? with
      | none => rwa [replay, List.take_add_one, found, Option.toList_none, List.append_nil]
      | some instruction =>
          rw [replay_succ found]
          exact depthAfter_le positive _ _

/-- What a count has found behind some instructions. -/
theorem depth_foldl_countStep (instructions : List Instruction) (count : DepthCount) :
    (instructions.foldl (block.countStep limit) count).depth =
      instructions.foldl (block.depthAfter limit) count.depth := by
  induction instructions generalizing count with
  | nil => rfl
  | cons instruction rest hypothesis => exact hypothesis _

theorem maxDepth_countStep (count : DepthCount) (instruction : Instruction) :
    (block.countStep limit count instruction).maxDepth =
      max count.maxDepth (block.countStep limit count instruction).depth := rfl

/-- The greatest number of locals of a count is the one it started with or one that an
instruction needs. -/
theorem maxLocals_foldl_countStep (instructions : List Instruction) (count : DepthCount) :
    (instructions.foldl (block.countStep limit) count).maxLocals =
      FlowGraph.localsNeeded instructions count.maxLocals := by
  induction instructions generalizing count with
  | nil => rfl
  | cons instruction rest hypothesis => exact hypothesis _

end Block

namespace FlowGraph

/-- The locals that some instructions need are within a bound if those of each are. -/
theorem localsNeeded_le_iff {instructions : List Instruction} {start bound : Nat} :
    localsNeeded instructions start ≤ bound ↔
      start ≤ bound ∧ ∀ instruction ∈ instructions, instruction.localsNeeded ≤ bound := by
  unfold localsNeeded
  induction instructions generalizing start with
  | nil => simp
  | cons instruction rest hypothesis =>
      rw [List.foldl_cons, hypothesis, Nat.max_le]
      simp [and_assoc]

/-- The locals that some instructions need are those at the start or needed by one of
them. -/
theorem localsNeeded_mem (instructions : List Instruction) (start : Nat) :
    localsNeeded instructions start = start ∨
      ∃ instruction ∈ instructions, localsNeeded instructions start = instruction.localsNeeded := by
  unfold localsNeeded
  induction instructions generalizing start with
  | nil => exact Or.inl rfl
  | cons instruction rest hypothesis =>
      rw [List.foldl_cons]
      rcases hypothesis (max start instruction.localsNeeded) with same | ⟨needing, present, same⟩
      · rw [same]
        rcases Nat.le_total start instruction.localsNeeded with le | le
        · exact Or.inr ⟨instruction, List.mem_cons_self, Nat.max_eq_right le⟩
        · exact Or.inl (Nat.max_eq_left le)
      · exact Or.inr ⟨needing, List.mem_cons_of_mem _ present, same⟩

end FlowGraph

/-- The count with which a visit begins. -/
def Notes.firstCount (notes : Notes) : DepthCount :=
  { depth := notes.inputDepth.getD 0
    maxDepth := max notes.maxDepth (notes.inputDepth.getD 0)
    maxLocals := max notes.maxLocals notes.inputLocals }

namespace Block

variable {block : Block} {limit : Nat} {notes : Notes}

@[simp] theorem inputDepth_countDepths :
    (block.countDepths limit notes).inputDepth = notes.inputDepth := rfl

@[simp] theorem inputLocals_countDepths :
    (block.countDepths limit notes).inputLocals = notes.inputLocals := rfl

/-- The outgoing depth is the last one that is replayed. -/
theorem outputDepth_countDepths :
    (block.countDepths limit notes).outputDepth =
      block.replay limit (notes.inputDepth.getD 0) block.instructions.length := by
  rw [replay, List.take_length]
  exact depth_foldl_countStep block.instructions notes.firstCount

theorem maxLocals_countDepths :
    (block.countDepths limit notes).maxLocals =
      FlowGraph.localsNeeded block.instructions (max notes.maxLocals notes.inputLocals) :=
  maxLocals_foldl_countStep block.instructions notes.firstCount

/-- The depth at an offset of a count is the one that is replayed. -/
theorem depth_foldl_take (offset : Nat) :
    ((block.instructions.take offset).foldl (block.countStep limit) notes.firstCount).depth =
      block.replay limit (notes.inputDepth.getD 0) offset :=
  depth_foldl_countStep (block.instructions.take offset) notes.firstCount

theorem replay_le_maxDepth_countDepths {offset : Nat} (le : offset ≤ block.instructions.length) :
    block.replay limit (notes.inputDepth.getD 0) offset ≤
      (block.countDepths limit notes).maxDepth := by
  rw [← depth_foldl_take]
  exact Greatest.le_foldl maxDepth_countStep (Nat.le_max_right notes.maxDepth _) le

/-- What holds of the greatest depth so far and of all that are replayed holds of the
greatest depth. -/
theorem maxDepth_countDepths
    (Holds : Nat → Prop)
    (before : Holds notes.maxDepth)
    (met : ∀ offset ≤ block.instructions.length,
      Holds (block.replay limit (notes.inputDepth.getD 0) offset)) :
    Holds (block.countDepths limit notes).maxDepth := by
  refine Greatest.foldl_induction maxDepth_countStep Holds ?_ fun offset le => ?_
  · exact Greatest.max_induction Holds before (met 0 (Nat.zero_le _))
  · have here := met offset le
    rw [← depth_foldl_take] at here
    exact here

end Block

end StackMaps
