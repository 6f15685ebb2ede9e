import StackMaps.Proofs.Flow.Draining
import StackMaps.Proofs.Flow.Replay
import StackMaps.Proofs.Flow.Settling
import Mathlib.Data.List.Basic

/-!
# Counting as an analysis

What a successor receives from a count raises the depth and the locals at its
entry, or leaves its notes alone. Entries can only grow up to the limit, so the
count ends, and then every successor has an entry that is at least as deep as
what is passed on to it.
-/

namespace StackMaps

namespace Notes

variable {notes : Notes} {depth locals : Nat}

/-- The depth that is passed on along an edge. -/
def passedDepth (notes : Notes) (edge : Edge) : Nat :=
  if edge.isException then 1 else notes.outputDepth

/-- The notes on the first block before the count. -/
def enterWith (startLocals : Nat) (notes : Notes) : Notes :=
  { notes with inputDepth := some 0, inputLocals := startLocals }

/-- An entry that would not grow is reached and has as much as is passed on. -/
theorem growsTo_eq_false_iff :
    notes.growsTo depth locals = false ↔
      ∃ known, notes.inputDepth = some known ∧ depth ≤ known ∧ locals ≤ notes.inputLocals := by
  unfold growsTo
  cases notes.inputDepth with
  | none => simp
  | some known => simp

/-- Raising an entry that would not grow changes nothing. -/
theorem raiseTo_eq_self (stays : notes.growsTo depth locals = false) :
    notes.raiseTo depth locals = notes := by
  obtain ⟨known, known_eq, deep, many⟩ := growsTo_eq_false_iff.mp stays
  obtain ⟨⟩ := notes
  simp only at known_eq many
  simp [raiseTo, known_eq, Nat.max_eq_left deep, Nat.max_eq_left many]

/-- A raised entry is the one that was passed on, if it is not the former one. -/
theorem inputDepth_raiseTo :
    ∃ raised, (notes.raiseTo depth locals).inputDepth = some raised ∧ depth ≤ raised ∧
      (raised = depth ∨ notes.inputDepth = some raised) ∧
      ∀ known, notes.inputDepth = some known → known ≤ raised := by
  refine ⟨_, rfl, Nat.le_max_right _ _, ?_, ?_⟩
  · cases notes.inputDepth with
    | none => simp
    | some known =>
        rcases Nat.le_total known depth with le | le
        · exact Or.inl (Nat.max_eq_right le)
        · exact Or.inr (congrArg some (Nat.max_eq_left le).symm)
  · intro known known_eq
    rw [known_eq]
    exact Nat.le_max_left _ _

end Notes

/-- The count as an analysis. What is known of an entry is its depth and the number of
locals. -/
def depthAnalysis (limit : Nat) : Analysis (Nat × Nat) where
  entry notes := notes.inputDepth.map fun depth => (depth, notes.inputLocals)
  transfer block notes := block.countDepths limit notes
  receive _ edge source notes := notes.raiseTo (source.passedDepth edge) source.maxLocals

namespace DepthAnalysis

variable {limit : Nat} {graph : FlowGraph}

theorem entry_eq_some_iff {notes : Notes} {depth locals : Nat} :
    (depthAnalysis limit).entry notes = some (depth, locals) ↔
      notes.inputDepth = some depth ∧ notes.inputLocals = locals := by
  simp only [depthAnalysis]
  cases notes.inputDepth <;> simp

/-- An entry changes if it grows, and only then. -/
theorem entry_raiseTo_eq_iff {notes : Notes} {depth locals : Nat} :
    (depthAnalysis limit).entry (notes.raiseTo depth locals) =
        (depthAnalysis limit).entry notes ↔
      notes.growsTo depth locals = false := by
  constructor
  · intro same
    rw [Notes.growsTo_eq_false_iff]
    cases known_eq : notes.inputDepth with
    | none => simp [depthAnalysis, Notes.raiseTo, known_eq] at same
    | some known =>
        simp only [depthAnalysis, Notes.raiseTo, known_eq, Option.getD_some, Option.map_some,
          Option.some.injEq, Prod.mk.injEq] at same
        exact ⟨known, rfl, by omega, by omega⟩
  · intro stays
    rw [Notes.raiseTo_eq_self stays]

/-- Depths are passed on like in the analysis. -/
theorem passDepth_eq
    {target : Nat}
    {targetBlock : Block}
    (target_eq : graph.blocks[target]? = some targetBlock)
    (source : Notes)
    (progress : Progress)
    (edge : Edge) :
    FlowGraph.passDepth source progress (target, edge) =
      (depthAnalysis limit).pass graph source progress (target, edge) := by
  have passed : FlowGraph.passDepth source progress (target, edge) =
      if (progress.notesOn target).growsTo (source.passedDepth edge) source.maxLocals = true then
        (progress.record target
          ((progress.notesOn target).raiseTo (source.passedDepth edge) source.maxLocals)).enqueue
            target
      else progress := rfl
  rw [passed]
  simp only [Analysis.pass, target_eq]
  by_cases grows :
      (progress.notesOn target).growsTo (source.passedDepth edge) source.maxLocals = true
  · have changed := (not_congr (@entry_raiseTo_eq_iff limit _ _ _)).mpr
      (Bool.not_eq_false _ ▸ grows)
    rw [if_pos grows]
    exact (if_neg changed).symm
  · have stays := Bool.not_eq_true _ ▸ grows
    rw [if_neg grows]
    refine Eq.trans ?_ (if_pos (entry_raiseTo_eq_iff.mpr stays)).symm
    simp only [depthAnalysis]
    rw [Notes.raiseTo_eq_self stays, Progress.record_notesOn]

/-- The count visits blocks like the analysis. -/
theorem visitDepth_eq (closed : graph.Closed) :
    graph.visitDepth limit = (depthAnalysis limit).visit graph := by
  funext progress index
  simp only [FlowGraph.visitDepth, Analysis.visit]
  cases block_eq : graph.blocks[index]? with
  | none => rfl
  | some block =>
      refine List.foldl_ext _ _ _ fun now successor present => ?_
      exact passDepth_eq
        (Array.getElem?_eq_getElem (closed index block block_eq successor present)) _ now
        successor.2

/-- The laws of the count, given that what is valid stays so. -/
theorem lawful
    {Valid : Nat → Notes → Prop}
    (valid_transfer : ∀ index block notes,
      graph.blocks[index]? = some block →
      notes.inputDepth.isSome →
      Valid index notes →
      Valid index (block.countDepths limit notes))
    (valid_receive : ∀ index block edge target targetBlock notes known,
      graph.Crosses index block edge target targetBlock →
      notes.inputDepth.isSome →
      Valid index notes →
      Valid target known →
      Valid target
        (known.raiseTo ((block.countDepths limit notes).passedDepth edge)
          (block.countDepths limit notes).maxLocals)) :
    (depthAnalysis limit).Lawful graph Valid where
  entry_transfer _ _ := rfl
  entry_receive _ _ _ _ := rfl
  valid_transfer index block notes found entered valid :=
    valid_transfer index block notes found (by simpa [depthAnalysis] using entered) valid
  valid_receive index block edge target targetBlock notes known crosses entered valid
      targetValid :=
    valid_receive index block edge target targetBlock notes known crosses
      (by simpa [depthAnalysis] using entered) valid targetValid

/-! ## Bounds -/

/-- Depths within the limit, and no more locals than given. -/
structure Bounded (limit locals : Nat) (notes : Notes) : Prop where
  inputDepth_le : ∀ depth, notes.inputDepth = some depth → depth ≤ limit
  inputLocals_le : notes.inputLocals ≤ locals
  maxLocals_le : notes.maxLocals ≤ locals

section Bounds

variable {locals : Nat} {notes known : Notes} {block : Block}

theorem Bounded.outputDepth_le
    (positive : 1 ≤ limit)
    (bounded : Bounded limit locals notes) :
    (block.countDepths limit notes).outputDepth ≤ limit := by
  rw [Block.outputDepth_countDepths]
  refine Block.replay_le positive ?_ _
  cases depth_eq : notes.inputDepth with
  | none => exact Nat.zero_le limit
  | some depth => exact bounded.inputDepth_le depth depth_eq

theorem Bounded.passedDepth_le
    (positive : 1 ≤ limit)
    (bounded : Bounded limit locals notes)
    (edge : Edge) :
    (block.countDepths limit notes).passedDepth edge ≤ limit := by
  simp only [Notes.passedDepth]
  split
  · exact positive
  · exact bounded.outputDepth_le positive

theorem Bounded.transfer
    (bounded : Bounded limit locals notes)
    (needs : ∀ instruction ∈ block.instructions, instruction.localsNeeded ≤ locals) :
    Bounded limit locals (block.countDepths limit notes) := by
  refine ⟨bounded.inputDepth_le, bounded.inputLocals_le, ?_⟩
  rw [Block.maxLocals_countDepths, FlowGraph.localsNeeded_le_iff]
  exact ⟨Nat.max_le.mpr ⟨bounded.maxLocals_le, bounded.inputLocals_le⟩, needs⟩

theorem Bounded.raiseTo
    (bounded : Bounded limit locals known)
    {depth many : Nat}
    (deep : depth ≤ limit)
    (few : many ≤ locals) :
    Bounded limit locals (known.raiseTo depth many) := by
  refine ⟨?_, Nat.max_le.mpr ⟨bounded.inputLocals_le, few⟩, bounded.maxLocals_le⟩
  obtain ⟨raised, raised_eq, _, origin, _⟩ := @Notes.inputDepth_raiseTo known depth many
  intro other other_eq
  obtain rfl := Option.some.inj (raised_eq.symm.trans other_eq)
  rcases origin with rfl | before
  · exact deep
  · exact bounded.inputDepth_le raised before

/-- How far the entry of a block can still grow. -/
def room (limit locals : Nat) (notes : Notes) : Nat :=
  (match notes.inputDepth with
    | none => limit + 1
    | some depth => limit - depth) +
    (locals - notes.inputLocals)

theorem room_raiseTo_le {depth many : Nat} :
    room limit locals (known.raiseTo depth many) ≤ room limit locals known := by
  simp only [room, Notes.raiseTo]
  cases known.inputDepth with
  | none => simp only [Option.getD_none]; omega
  | some before => simp only [Option.getD_some]; omega

/-- An entry that grows uses up some of its room. -/
theorem room_raiseTo_lt
    {depth many : Nat}
    (deep : depth ≤ limit)
    (few : many ≤ locals)
    (grows : known.growsTo depth many = true) :
    room limit locals (known.raiseTo depth many) < room limit locals known := by
  simp only [room, Notes.raiseTo]
  simp only [Notes.growsTo, Bool.or_eq_true, decide_eq_true_eq] at grows
  cases depth_eq : known.inputDepth with
  | none => simp only [Option.getD_none]; omega
  | some before =>
      simp only [depth_eq, decide_eq_true_eq] at grows
      simp only [Option.getD_some]
      omega

end Bounds

variable {locals : Nat}

/-- Counting keeps within the bounds. -/
theorem lawful_bounded
    (positive : 1 ≤ limit)
    (needs : ∀ (index : Nat) (block : Block), graph.blocks[index]? = some block →
      ∀ instruction ∈ block.instructions, instruction.localsNeeded ≤ locals) :
    (depthAnalysis limit).Lawful graph (fun _ => Bounded limit locals) := by
  refine lawful ?_ ?_
  · intro index block notes found _ bounded
    exact bounded.transfer (needs index block found)
  · intro index block edge target targetBlock notes known crosses _ bounded targetBounded
    exact targetBounded.raiseTo (bounded.passedDepth_le positive edge)
      (bounded.transfer (needs index block crosses.source_eq)).maxLocals_le

/-- The room for growth pays for the visits. -/
def budget
    (graph : FlowGraph)
    (positive : 1 ≤ limit)
    (needs : ∀ (index : Nat) (block : Block), graph.blocks[index]? = some block →
      ∀ instruction ∈ block.instructions, instruction.localsNeeded ≤ locals) :
    (depthAnalysis limit).Budget graph (fun _ => Bounded limit locals) where
  credit _ notes := room limit locals notes
  cost _ := 1
  credit_transfer _ _ notes _ _ _ := Nat.lt_succ_self (room limit locals notes)
  cost_receive _ _ _ _ := rfl
  credit_receive _ _ _ _ _ _ _ _ _ _ _ := room_raiseTo_le
  credit_change index block edge _ _ _ _ crosses _ bounded _ changed :=
    room_raiseTo_lt (bounded.passedDepth_le positive edge)
      (bounded.transfer (needs index block crosses.source_eq)).maxLocals_le
      (Bool.not_eq_false _ ▸ (not_congr entry_raiseTo_eq_iff).mp changed)

/-- The count begins within the bounds. -/
theorem sound_bounded
    (filled : 0 < graph.blocks.size)
    {startLocals : Nat}
    (le : startLocals ≤ locals) :
    (depthAnalysis limit).Sound graph (fun _ => Bounded limit locals)
      (graph.opening (Notes.enterWith startLocals)) := by
  refine Analysis.Sound.opening filled rfl ⟨?_, le, Nat.zero_le _⟩ fun _ _ => ?_
  · rintro _ ⟨⟩
    exact Nat.zero_le limit
  · exact ⟨fun _ absent => by simp [Notes.blank] at absent, Nat.zero_le _, Nat.zero_le _⟩

/-- The count ends with nobody waiting. -/
theorem drains
    (closed : graph.Closed)
    (filled : 0 < graph.blocks.size)
    (positive : 1 ≤ limit)
    (needs : ∀ (index : Nat) (block : Block), graph.blocks[index]? = some block →
      ∀ instruction ∈ block.instructions, instruction.localsNeeded ≤ locals)
    {startLocals : Nat}
    (le : startLocals ≤ locals) :
    (Progress.run (graph.visitDepth limit) (graph.depthFuel limit locals)
      (graph.opening (Notes.enterWith startLocals))).worklist.toList = [] := by
  rw [visitDepth_eq closed]
  refine (budget graph positive needs).drains closed (lawful_bounded positive needs)
    (sound_bounded filled le) ?_
  have first : room limit locals (Notes.enterWith startLocals .blank) ≤ limit + locals + 1 := by
    simp only [room, Notes.enterWith]
    omega
  have others : room limit locals .blank ≤ limit + locals + 1 := by
    simp only [room, Notes.blank]
    omega
  calc (budget graph positive needs).measure (graph.opening (Notes.enterWith startLocals))
      ≤ graph.blocks.size * (limit + locals + 1) + 1 :=
        (budget graph positive needs).measure_opening_le filled first fun _ => others
    _ ≤ graph.blocks.size * (limit + locals + 2) + 1 :=
        Nat.succ_le_succ (Nat.mul_le_mul_left _ (Nat.le_succ _))

/-! ## Settled counts -/

/-- The notes tell the greatest depth in the block and the locals that it needs. -/
def Counted (limit : Nat) (block : Block) (notes : Notes) : Prop :=
  (∀ offset ≤ block.instructions.length,
    block.replay limit (notes.inputDepth.getD 0) offset ≤ notes.maxDepth) ∧
  FlowGraph.localsNeeded block.instructions notes.inputLocals ≤ notes.maxLocals

theorem counted_countDepths (limit : Nat) (block : Block) (notes : Notes) :
    Counted limit block (block.countDepths limit notes) := by
  refine ⟨?_, ?_⟩
  · intro offset le
    rw [Block.inputDepth_countDepths]
    exact Block.replay_le_maxDepth_countDepths le
  · rw [Block.maxLocals_countDepths, Block.inputLocals_countDepths,
      FlowGraph.localsNeeded_le_iff]
    obtain ⟨start, needed⟩ := FlowGraph.localsNeeded_le_iff.mp
      (Nat.le_refl
        (FlowGraph.localsNeeded block.instructions (max notes.maxLocals notes.inputLocals)))
    exact ⟨Nat.le_trans (Nat.le_max_right _ _) start, needed⟩

/-- The depth that a block passes on along an edge, if it is entered with the given
one. -/
def passed (limit : Nat) (block : Block) (depth : Nat) (edge : Edge) : Nat :=
  if edge.isException then 1 else block.replay limit depth block.instructions.length

theorem passedDepth_countDepths
    {block : Block}
    {notes : Notes}
    {depth : Nat}
    (depth_eq : notes.inputDepth = some depth)
    (edge : Edge) :
    (block.countDepths limit notes).passedDepth edge = passed limit block depth edge := by
  rw [Notes.passedDepth, Block.outputDepth_countDepths, depth_eq, Option.getD_some]
  rfl

/-- A successor has taken account of a depth if its entry is as deep as what is passed
on, and a block is done with if it is counted and its depth has been met in a visit. -/
def settlement
    (limit : Nat)
    (graph : FlowGraph)
    (Valid : Nat → Notes → Prop)
    (Met : Block → Nat → Prop) :
    (depthAnalysis limit).Settlement graph Valid where
  Absorbs block state edge _ known :=
    ∃ depth, known.inputDepth = some depth ∧ passed limit block state.1 edge ≤ depth
  Done block notes := Counted limit block notes ∧ Met block (notes.inputDepth.getD 0)
  absorbs_receive index block edge target targetBlock notes known state _ entry_eq _ _ := by
    obtain ⟨depth, inputLocals⟩ := state
    obtain ⟨raised, raised_eq, deep, _, _⟩ := @Notes.inputDepth_raiseTo known
      ((block.countDepths limit notes).passedDepth edge)
      (block.countDepths limit notes).maxLocals
    refine ⟨raised, raised_eq, ?_⟩
    rwa [passedDepth_countDepths (entry_eq_some_iff.mp entry_eq).1] at deep
  absorbs_receive_other _ _ _ _ block edge _ _ notes known _ _ _ _ absorbs := by
    obtain ⟨depth, depth_eq, deep⟩ := absorbs
    obtain ⟨raised, raised_eq, _, _, grown⟩ := @Notes.inputDepth_raiseTo known
      ((block.countDepths limit notes).passedDepth edge)
      (block.countDepths limit notes).maxLocals
    exact ⟨raised, raised_eq, Nat.le_trans deep (grown depth depth_eq)⟩
  absorbs_transfer _ _ _ _ _ absorbs := absorbs
  done_receive block edge source notes unchanged done := by
    have stays := entry_raiseTo_eq_iff.mp unchanged
    simp only [depthAnalysis]
    rw [Notes.raiseTo_eq_self stays]
    exact done

/-- All blocks but those that wait are settled in the end. -/
theorem settles
    (closed : graph.Closed)
    (filled : 0 < graph.blocks.size)
    (limit fuel startLocals : Nat)
    (Met : Block → Nat → Prop)
    (met : ∀ moment index rest block,
      Progress.Reaches (graph.visitDepth limit)
        (graph.opening (Notes.enterWith startLocals)) moment →
      moment.worklist.pop = (some index, rest) →
      graph.blocks[index]? = some block →
      Met block ((moment.notesOn index).inputDepth.getD 0)) :
    (settlement limit graph (fun _ _ => True) Met).Settled
      (Progress.run (graph.visitDepth limit) fuel
        (graph.opening (Notes.enterWith startLocals))) := by
  rw [visitDepth_eq closed] at met ⊢
  refine (Analysis.Settlement.Settled.opening filled rfl).reaches closed
    (lawful (fun _ _ _ _ _ _ => trivial) fun _ _ _ _ _ _ _ _ _ _ _ => trivial)
    (Analysis.Sound.opening filled rfl trivial fun _ _ => trivial) ?_
    (Progress.reaches_run fuel _)
  intro moment index rest block reached popped block_eq
  exact ⟨counted_countDepths limit block (moment.notesOn index),
    met moment index rest block reached popped block_eq⟩

end DepthAnalysis

end StackMaps
