import StackMaps.Proofs.Flow.Agreement
import Mathlib.Combinatorics.Enumerative.DoubleCounting
import Mathlib.Order.Interval.Finset.Nat

/-!
# Bodies with one depth at every position

The limit on depths touches no body in which all paths to a position agree on the
depth there. No instruction raises a stack by more than two slots, so a deep stack
has risen through all levels of two slots below it, each of them behind another
instruction: there are no more levels than instructions.
-/

namespace StackMaps

theorem Constant.width_le (constant : Constant) : constant.width ≤ 2 := by
  unfold width
  split <;> decide

theorem FieldType.width_le (type : FieldType) : type.width ≤ 2 := by
  unfold width
  split <;> decide

theorem MethodDescriptor.resultWidth_le (descriptor : MethodDescriptor) :
    descriptor.resultWidth ≤ 2 := by
  unfold resultWidth
  split
  next => exact Nat.zero_le 2
  next type _ => exact type.width_le

theorem Opcode.pushes_simpleEffect_le (opcode : Opcode) :
    opcode.simpleEffect.pushes ≤ opcode.simpleEffect.pops + 2 := by
  cases opcode with
  | unassigned index => exact Nat.zero_le 2
  | _ => decide

/-- No instruction pushes more than two slots beyond those that it pops. -/
theorem Instruction.pushes_stackEffect_le (instruction : Instruction) :
    instruction.stackEffect.pushes ≤ instruction.stackEffect.pops + 2 := by
  cases instruction with
  | mark label => exact Nat.zero_le 2
  | simple opcode => exact opcode.pushes_simpleEffect_le
  | var opcode index => simp only [stackEffect]; split <;> decide
  | increment index amount => exact Nat.zero_le 2
  | type opcode type => simp only [stackEffect]; split <;> decide
  | field opcode owner name declared =>
      have narrow := declared.width_le
      simp only [stackEffect]
      split <;> grind
  | method opcode owner name descriptor isInterface =>
      exact Nat.le_trans descriptor.resultWidth_le (Nat.le_add_left _ _)
  | push constant => exact Nat.le_trans constant.width_le (Nat.le_add_left _ _)
  | branch opcode target =>
      simp only [stackEffect]
      split <;> omega
  | lookupSwitch fallback targets => exact Nat.zero_le 3
  | tableSwitch fallback low targets => exact Nat.zero_le 3
  | multiNewArray type dimensions => exact Nat.le_add_left 1 (dimensions.toNat + 1)
  | newArray type => exact Nat.le_add_right 1 2
  | invokeDynamic name descriptor handle arguments =>
      exact Nat.le_trans descriptor.resultWidth_le (Nat.le_add_left _ _)

namespace Body

/-- The depth behind an instruction without a limit. -/
def uncutBehind (body : Body) (depth : Nat) (instruction : Instruction) : Nat :=
  if body.marksHandler instruction then 1
  else depth - instruction.stackEffect.pops + instruction.stackEffect.pushes

/-- The positions that control can reach, whatever the depths. -/
inductive PositionReached (body : Body) : Nat → Prop
  /-- The first position. -/
  | entry
      (filled : body.instructions ≠ []) :
      PositionReached body 0
  /-- By going on to the next instruction. -/
  | next {position : Nat} {instruction : Instruction}
      (reached : PositionReached body position)
      (found : body.instructions[position]? = some instruction)
      (falls : instruction.fallsThrough = true)
      (inside : position + 1 < body.instructions.length) :
      PositionReached body (position + 1)
  /-- By a jump to a label that is placed. -/
  | jump {position target : Nat} {instruction : Instruction} {label : Label}
      (reached : PositionReached body position)
      (found : body.instructions[position]? = some instruction)
      (jumps : label ∈ instruction.jumpTargets)
      (placed : body.positionOf? label = some target) :
      PositionReached body target
  /-- By an exception, to the handler of a range that covers the position. -/
  | throw {position start stop handler : Nat} {range : ExceptionRange}
      (reached : PositionReached body position)
      (places : body.Places range start stop handler)
      (within : start ≤ position)
      (before : position < stop) :
      PositionReached body handler

/-- One depth for every position that control can reach, which all paths respect. -/
structure Consistent (body : Body) (depths : Nat → Nat) : Prop where
  entry : depths 0 = 0
  enough : ∀ position instruction, body.PositionReached position →
    body.instructions[position]? = some instruction → body.marksHandler instruction = false →
    instruction.stackEffect.pops ≤ depths position
  next : ∀ position instruction, body.PositionReached position →
    body.instructions[position]? = some instruction → instruction.fallsThrough = true →
    position + 1 < body.instructions.length →
    depths (position + 1) = body.uncutBehind (depths position) instruction
  jump : ∀ position instruction label target, body.PositionReached position →
    body.instructions[position]? = some instruction → label ∈ instruction.jumpTargets →
    body.positionOf? label = some target →
    depths target = body.uncutBehind (depths position) instruction
  handler : ∀ position instruction, body.PositionReached position →
    body.instructions[position]? = some instruction → body.marksHandler instruction = true →
    depths position = 1

/-- The depths in front of and behind the instructions that control can reach, if the
positions have some depths. -/
def depthsUnder (body : Body) (depths : Nat → Nat) : Set Nat :=
  {met | ∃ position instruction, body.PositionReached position ∧
    body.instructions[position]? = some instruction ∧
    (met = depths position ∨ met = body.uncutBehind (depths position) instruction)}

variable {body : Body} {depths : Nat → Nat}

/-- The machine comes to a position with some depth exactly if control can reach it. -/
theorem positionReached_iff {position : Nat} :
    body.PositionReached position ↔ ∃ depth, body.DepthReached position depth := by
  constructor
  · intro reached
    induction reached with
    | entry filled => exact ⟨0, .entry filled⟩
    | next _ found falls inside hypothesis =>
        obtain ⟨depth, reached⟩ := hypothesis
        exact ⟨_, reached.next found falls inside⟩
    | jump _ found jumps placed hypothesis =>
        obtain ⟨depth, reached⟩ := hypothesis
        exact ⟨_, reached.jump found jumps placed⟩
    | throw _ places within before hypothesis =>
        obtain ⟨depth, reached⟩ := hypothesis
        exact ⟨1, reached.throw places within before⟩
  · rintro ⟨depth, reached⟩
    induction reached with
    | entry filled => exact .entry filled
    | next _ found falls inside hypothesis => exact hypothesis.next found falls inside
    | jump _ found jumps placed hypothesis => exact hypothesis.jump found jumps placed
    | throw _ places within before hypothesis => exact hypothesis.throw places within before

/-- The instruction at the handler of a range marks a handler. -/
theorem Places.exists_marksHandler
    {range : ExceptionRange}
    {start stop handler : Nat}
    (places : body.Places range start stop handler) :
    ∃ instruction, body.instructions[handler]? = some instruction ∧
      body.marksHandler instruction = true :=
  ⟨.mark range.handler, getElem?_of_positionOf? places.handler_eq,
    marksHandler_iff.mpr ⟨range, start, stop, handler, places, rfl⟩⟩

/-- The limit cuts nothing off a depth within it. -/
theorem depthBehind_eq_uncutBehind
    {depth : Nat}
    {instruction : Instruction}
    (le : body.uncutBehind depth instruction ≤ body.depthLimit) :
    body.depthBehind depth instruction = body.uncutBehind depth instruction := by
  unfold depthBehind uncutBehind at *
  split
  next => rfl
  next ordinary =>
      rw [if_neg ordinary] at le
      exact Nat.min_eq_left le

/-! ## Levels of the stack -/

/-- The level up to which a stack rises if a level is two slots high. -/
def level (depth : Nat) : Nat := (depth + 1) / 2

/-- The stack is on a level behind the instruction at a position that control can
reach. -/
def IsOnLevel (body : Body) (depths : Nat → Nat) (height position : Nat) : Prop :=
  ∃ instruction, body.PositionReached position ∧
    body.instructions[position]? = some instruction ∧
    level (body.uncutBehind (depths position) instruction) = height

/-- All levels up to that of a depth occur in the body. -/
def Climbs (body : Body) (depths : Nat → Nat) (depth : Nat) : Prop :=
  ∀ height, 1 ≤ height → height ≤ level depth → ∃ position, body.IsOnLevel depths height position

/-- An instruction takes the stack up by one level at most. -/
theorem Consistent.level_uncutBehind_le
    (consistent : body.Consistent depths)
    {position : Nat}
    {instruction : Instruction}
    (reached : body.PositionReached position)
    (found : body.instructions[position]? = some instruction) :
    level (body.uncutBehind (depths position) instruction) ≤ level (depths position) + 1 := by
  have raised := instruction.pushes_stackEffect_le
  unfold level uncutBehind
  split
  next => omega
  next ordinary =>
      have enough := consistent.enough position instruction reached found
        (Bool.eq_false_iff.mpr ordinary)
      omega

/-- Behind an instruction all levels occur if they do in front of it. -/
theorem Climbs.behind
    (consistent : body.Consistent depths)
    {position : Nat}
    {instruction : Instruction}
    (reached : body.PositionReached position)
    (found : body.instructions[position]? = some instruction)
    (climbs : body.Climbs depths (depths position)) :
    body.Climbs depths (body.uncutBehind (depths position) instruction) := by
  intro height positive le
  have step := consistent.level_uncutBehind_le reached found
  by_cases below : height ≤ level (depths position)
  · exact climbs height positive below
  · exact ⟨position, instruction, reached, found, by omega⟩

/-- All levels occur up to that of the depth at any position that control can reach. -/
theorem Consistent.climbs
    (consistent : body.Consistent depths)
    {position : Nat}
    (reached : body.PositionReached position) :
    body.Climbs depths (depths position) := by
  induction reached with
  | entry _ =>
      intro height positive le
      rw [consistent.entry] at le
      exact absurd (Nat.le_trans positive le) (by decide)
  | @next position instruction reached found falls inside hypothesis =>
      rw [consistent.next position instruction reached found falls inside]
      exact hypothesis.behind consistent reached found
  | @jump position target instruction label reached found jumps placed hypothesis =>
      rw [consistent.jump position instruction label target reached found jumps placed]
      exact hypothesis.behind consistent reached found
  | @throw position start stop handler range reached places within before _ =>
      -- the stack of a handler rises from nothing, whatever its depth was before
      obtain ⟨instruction, found, marks⟩ := places.exists_marksHandler
      have atHandler := reached.throw places within before
      intro height positive le
      rw [consistent.handler handler instruction atHandler found marks] at le
      refine ⟨handler, instruction, atHandler, found, ?_⟩
      rw [uncutBehind, if_pos marks]
      exact Nat.le_antisymm positive le

/-- There are no more levels than instructions, since the stack is on one level only
behind each of them. -/
theorem Climbs.le_depthLimit
    {depth : Nat}
    (climbs : body.Climbs depths depth) :
    depth ≤ body.depthLimit := by
  have levels : (Finset.Icc 1 (level depth)).card ≤
      (Finset.range body.instructions.length).card := by
    refine Finset.card_le_card_of_forall_subsingleton (body.IsOnLevel depths) ?_ ?_
    · intro height within
      obtain ⟨positive, le⟩ := Finset.mem_Icc.mp within
      obtain ⟨position, instruction, reached, found, level_eq⟩ := climbs height positive le
      have inside := (List.getElem?_eq_some_iff.mp found).1
      exact ⟨position, Finset.mem_range.mpr inside, instruction, reached, found, level_eq⟩
    · rintro position _ height ⟨_, instruction, _, found, rfl⟩ other ⟨_, same, _, foundSame, rfl⟩
      obtain rfl := Option.some.inj (found.symm.trans foundSame)
      rfl
  rw [Nat.card_Icc, Finset.card_range] at levels
  unfold level at levels
  unfold depthLimit
  omega

/-! ## The machine on consistent bodies -/

/-- No depth in a consistent body is beyond the limit. -/
theorem Consistent.le_depthLimit
    (consistent : body.Consistent depths)
    {depth : Nat}
    (met : depth ∈ body.depthsUnder depths) :
    depth ≤ body.depthLimit := by
  obtain ⟨position, instruction, reached, found, which⟩ := met
  have climbs := consistent.climbs reached
  rcases which with rfl | rfl
  · exact climbs.le_depthLimit
  · exact (climbs.behind consistent reached found).le_depthLimit

theorem Consistent.depthBehind_eq
    (consistent : body.Consistent depths)
    {position : Nat}
    {instruction : Instruction}
    (reached : body.PositionReached position)
    (found : body.instructions[position]? = some instruction) :
    body.depthBehind (depths position) instruction =
      body.uncutBehind (depths position) instruction :=
  depthBehind_eq_uncutBehind
    (consistent.le_depthLimit ⟨position, instruction, reached, found, Or.inr rfl⟩)

/-- The machine comes to every position with its one depth. -/
theorem Consistent.eq_of_depthReached
    (consistent : body.Consistent depths)
    {position depth : Nat}
    (reached : body.DepthReached position depth) :
    depth = depths position := by
  induction reached with
  | entry _ => exact consistent.entry.symm
  | @next position depth instruction reached found falls inside hypothesis =>
      have atPosition := positionReached_iff.mpr ⟨depth, reached⟩
      rw [consistent.next position instruction atPosition found falls inside, hypothesis]
      exact consistent.depthBehind_eq atPosition found
  | @jump position depth target instruction label reached found jumps placed hypothesis =>
      have atPosition := positionReached_iff.mpr ⟨depth, reached⟩
      rw [consistent.jump position instruction label target atPosition found jumps placed,
        hypothesis]
      exact consistent.depthBehind_eq atPosition found
  | @throw position depth start stop handler range reached places within before _ =>
      obtain ⟨instruction, found, marks⟩ := places.exists_marksHandler
      have atHandler := positionReached_iff.mpr ⟨1, reached.throw places within before⟩
      exact (consistent.handler handler instruction atHandler found marks).symm

/-- The machine meets the depths of the positions, and nothing is cut off them. -/
theorem Consistent.depthsMet_eq (consistent : body.Consistent depths) :
    body.depthsMet = body.depthsUnder depths := by
  ext met
  constructor
  · rintro ⟨position, depth, instruction, reached, found, which⟩
    have atPosition := positionReached_iff.mpr ⟨depth, reached⟩
    obtain rfl := consistent.eq_of_depthReached reached
    rw [consistent.depthBehind_eq atPosition found] at which
    exact ⟨position, instruction, atPosition, found, which⟩
  · rintro ⟨position, instruction, atPosition, found, which⟩
    obtain ⟨depth, reached⟩ := positionReached_iff.mp atPosition
    obtain rfl := consistent.eq_of_depthReached reached
    rw [← consistent.depthBehind_eq atPosition found] at which
    exact ⟨position, _, instruction, reached, found, which⟩

/-- No visit of the count cuts a depth of a consistent body. -/
theorem Consistent.countsUncut
    (consistent : body.Consistent depths)
    (filled : body.instructions ≠ [])
    (once : body.PlacesLabelsOnce)
    (startLocals : Nat) :
    body.CountsUncut startLocals := by
  refine countsUncut_of_depthReached filled once ?_ startLocals
  intro position depth instruction reached found
  have atPosition := positionReached_iff.mpr ⟨depth, reached⟩
  obtain rfl := consistent.eq_of_depthReached reached
  cases marks : body.marksHandler instruction with
  | true =>
      obtain ⟨range, _, _, _, _, marks_eq⟩ := marksHandler_iff.mp marks
      obtain rfl := Instruction.marks?_eq_some_iff.mp marks_eq
      exact consistent.le_depthLimit ⟨position, _, atPosition, found, Or.inl rfl⟩
  | false =>
      have le := consistent.le_depthLimit ⟨position, instruction, atPosition, found, Or.inr rfl⟩
      rwa [uncutBehind, marks] at le

end Body

namespace Session

/-- The limit touches no consistent body: in no visit of the count is a depth cut, and
the greatest depth that the count finds is exactly the greatest one in front of and behind
the instructions that control can reach. None of these is beyond two slots for each
instruction. -/
theorem isGreatest_maxStack_of_consistent
    (body : Body)
    (startLocals : Nat)
    (depths : Nat → Nat)
    (once : body.PlacesLabelsOnce)
    (consistent : body.Consistent depths) :
    (body.instructions ≠ [] → body.CountsUncut startLocals) ∧
      IsGreatest (insert 0 (body.depthsUnder depths))
        ((ofBody body).computeMaxes startLocals).1.maxStack ∧
      ∀ depth ∈ body.depthsUnder depths, depth ≤ 2 * body.instructions.length := by
  refine ⟨fun filled => consistent.countsUncut filled once startLocals, ?_,
    fun depth => consistent.le_depthLimit⟩
  by_cases empty : body.instructions = []
  · rw [computeMaxes_of_empty empty]
    refine ⟨Set.mem_insert 0 _, ?_⟩
    rintro _ (rfl | ⟨position, instruction, _, found, _⟩)
    · exact Nat.le_refl 0
    · simp [empty] at found
  · rw [(computeMaxes_eq empty startLocals).1, ← consistent.depthsMet_eq]
    exact FlowGraph.isGreatest_maxStack empty once

/-- The depths at the positions of the loop, and nothing beyond. -/
def wideLoopDepth (position : Nat) : Nat := wideLoopDepths.getD position 0

/-- The loop has one depth at every position. -/
theorem consistent_wideLoop : wideLoop.Consistent wideLoopDepth where
  entry := rfl
  enough position instruction _ found ordinary := by
    have enough : ∀ position < 8, ∀ instruction ∈ wideLoop.instructions[position]?,
        instruction.stackEffect.pops ≤ wideLoopDepth position := by decide
    exact enough position (List.getElem?_eq_some_iff.mp found).1 instruction found
  next position instruction _ found falls inside := by
    have step : ∀ position < 8, ∀ instruction ∈ wideLoop.instructions[position]?,
        instruction.fallsThrough = true →
        wideLoopDepth (position + 1) =
          wideLoop.uncutBehind (wideLoopDepth position) instruction := by decide
    exact step position (List.getElem?_eq_some_iff.mp found).1 instruction found falls
  jump position instruction label target _ found jumps placed := by
    have step : ∀ position < 8, ∀ instruction ∈ wideLoop.instructions[position]?,
        ∀ label ∈ instruction.jumpTargets, ∀ target ∈ wideLoop.positionOf? label,
        wideLoopDepth target =
          wideLoop.uncutBehind (wideLoopDepth position) instruction := by decide
    exact step position (List.getElem?_eq_some_iff.mp found).1 instruction found label jumps target
      placed
  handler position instruction _ found marks := by
    have atHandler : ∀ position < 8, ∀ instruction ∈ wideLoop.instructions[position]?,
        wideLoop.marksHandler instruction = true → wideLoopDepth position = 1 := by decide
    exact atHandler position (List.getElem?_eq_some_iff.mp found).1 instruction found marks

/-- The limit does not touch the loop. -/
theorem isGreatest_maxStack_wideLoop :
    wideLoop.PlacesLabelsOnce ∧ wideLoop.Consistent wideLoopDepth ∧
      wideLoop.CountsUncut 0 ∧
      IsGreatest (insert 0 (wideLoop.depthsUnder wideLoopDepth))
        ((ofBody wideLoop).computeMaxes 0).1.maxStack := by
  have once : wideLoop.PlacesLabelsOnce := by decide
  obtain ⟨uncut, greatest, _⟩ :=
    isGreatest_maxStack_of_consistent wideLoop 0 wideLoopDepth once consistent_wideLoop
  exact ⟨once, consistent_wideLoop, uncut (by decide), greatest⟩

end Session
end StackMaps
