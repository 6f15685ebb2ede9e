import StackMaps.Flow.Graph

/-!
# Blocks as parts of a body

Cutting a body in front of the positions that are flagged as leaders gives parts
that follow each other without a gap. No part has a leader behind its first
position, every part but the first begins at a leader, and every position of the
body lies in the one part that is noted for it.
-/

namespace StackMaps
namespace FlowGraph

/-- A list of parts makes up the instructions from a position on, and is cut
exactly at the leaders. -/
inductive Cut (leaders : Array Bool) :
    Nat → List (Nat × List Instruction) → List Instruction → Prop
  | nil (start : Nat) : Cut leaders start [] []
  | cons
      {start : Nat}
      {run : List Instruction}
      {parts : List (Nat × List Instruction)}
      {instructions : List Instruction}
      (nonempty : run ≠ [])
      (inner : ∀ offset, 0 < offset → offset < run.length →
        leaders.getD (start + offset) false = false)
      (led : parts ≠ [] → leaders.getD (start + run.length) false = true)
      (rest : Cut leaders (start + run.length) parts instructions) :
      Cut leaders start ((start, run) :: parts) (run ++ instructions)

namespace Cut

variable {leaders : Array Bool} {start : Nat}
variable {parts : List (Nat × List Instruction)} {instructions : List Instruction}

/-- One more instruction in front joins the first part or makes up one of its own. -/
theorem segmentStep
    (instruction : Instruction)
    (cut : Cut leaders (start + 1) parts instructions) :
    Cut leaders start (FlowGraph.segmentStep leaders (instruction, start) parts)
      (instruction :: instructions) := by
  cases cut with
  | nil =>
      change Cut leaders start [(start, [instruction])] ([instruction] ++ [])
      refine Cut.cons (by simp) ?_ (by simp) (Cut.nil _)
      intro offset positive less
      simp only [List.length_singleton] at less
      omega
  | @cons _ run rest remaining nonempty inner led cutRest =>
      unfold FlowGraph.segmentStep
      cases leads : leaders.getD (start + 1) false with
      | true =>
          simp only [leads, if_true]
          change Cut leaders start ((start, [instruction]) :: (start + 1, run) :: rest)
            ([instruction] ++ (run ++ remaining))
          refine Cut.cons (by simp) ?_ (fun _ => leads) (Cut.cons nonempty inner led cutRest)
          intro offset positive less
          simp only [List.length_singleton] at less
          omega
      | false =>
          simp only [leads, Bool.false_eq_true, if_false]
          have shift : start + 1 + run.length = start + (instruction :: run).length := by
            rw [List.length_cons]
            omega
          rw [shift] at led cutRest
          change Cut leaders start ((start, instruction :: run) :: rest)
            ((instruction :: run) ++ remaining)
          refine Cut.cons (by simp) ?_ led cutRest
          intro offset positive less
          cases offset with
          | zero => omega
          | succ before =>
              by_cases first : before = 0
              · subst first
                exact leads
              · have := inner before (by omega) (by simpa using less)
                rwa [show start + (before + 1) = start + 1 + before by omega]

/-- Every part lies behind the start, holds the instructions at its positions and has
no leader behind its first position. -/
theorem of_getElem?
    (cut : Cut leaders start parts instructions)
    {index : Nat}
    {part : Nat × List Instruction}
    (found : parts[index]? = some part) :
    start ≤ part.1 ∧
      part.1 + part.2.length ≤ start + instructions.length ∧
      part.2 ≠ [] ∧
      (∀ offset, offset < part.2.length →
        part.2[offset]? = instructions[part.1 - start + offset]?) ∧
      (∀ offset, 0 < offset → offset < part.2.length →
        leaders.getD (part.1 + offset) false = false) := by
  induction cut generalizing index with
  | nil => simp at found
  | @cons start run rest remaining nonempty inner led cutRest hypothesis =>
      cases index with
      | zero =>
          simp only [List.getElem?_cons_zero, Option.some.injEq] at found
          subst found
          refine ⟨Nat.le_refl _, by simp, nonempty, ?_, inner⟩
          intro offset less
          simp [List.getElem?_append_left less]
      | succ index =>
          rw [List.getElem?_cons_succ] at found
          obtain ⟨behind, bounded, filled, same, unled⟩ := hypothesis found
          refine ⟨by omega, by rw [List.length_append]; omega, filled, ?_, unled⟩
          intro offset less
          rw [same offset less, List.getElem?_append_right (by omega)]
          congr 1
          omega

/-- The parts behind the first one begin at leaders. -/
theorem leads_of_pos
    (cut : Cut leaders start parts instructions)
    {index : Nat}
    {part : Nat × List Instruction}
    (found : parts[index]? = some part)
    (positive : 0 < index) :
    leaders.getD part.1 false = true := by
  induction cut generalizing index with
  | nil => simp at found
  | @cons start run rest remaining nonempty inner led cutRest hypothesis =>
      cases index with
      | zero => omega
      | succ index =>
          rw [List.getElem?_cons_succ] at found
          by_cases first : index = 0
          · subst first
            cases cutRest with
            | nil => simp at found
            | cons =>
                simp only [List.getElem?_cons_zero, Option.some.injEq] at found
                subst found
                exact led (by simp)
          · exact hypothesis found (by omega)

/-- The first part begins at the start, and the next one where a part ends. -/
theorem start_eq
    (cut : Cut leaders start parts instructions)
    {index : Nat}
    {part : Nat × List Instruction}
    (found : parts[index]? = some part) :
    part.1 = if index = 0 then start else
      ((parts[index - 1]?).map fun before => before.1 + before.2.length).getD start := by
  induction cut generalizing index with
  | nil => simp at found
  | @cons start run rest remaining nonempty inner led cutRest hypothesis =>
      cases index with
      | zero =>
          simp only [List.getElem?_cons_zero, Option.some.injEq] at found
          simp [← found]
      | succ index =>
          rw [List.getElem?_cons_succ] at found
          rw [hypothesis found]
          cases index with
          | zero => simp
          | succ before =>
              have shorter : before < rest.length := by
                have := (List.getElem?_eq_some_iff.mp found).1
                omega
              simp [List.getElem?_eq_getElem shorter]

/-- A position belongs to the part that is noted for it, and to no other one. The parts
are counted from `base` on. -/
theorem getElem?_owners
    (cut : Cut leaders start parts instructions)
    (base offset index : Nat) :
    ((parts.zipIdx base).flatMap fun entry => List.replicate entry.1.2.length entry.2)[offset]? =
        some index ↔
      ∃ part, base ≤ index ∧ parts[index - base]? = some part ∧
        part.1 ≤ start + offset ∧ start + offset < part.1 + part.2.length := by
  induction cut generalizing base offset with
  | nil => simp
  | @cons start run rest remaining nonempty inner led cutRest hypothesis =>
      rw [List.zipIdx_cons, List.flatMap_cons]
      by_cases inFirst : offset < run.length
      · rw [List.getElem?_append_left (by simpa using inFirst)]
        simp only [List.getElem?_replicate, inFirst, if_true, Option.some.injEq]
        constructor
        · rintro rfl
          exact ⟨(start, run), Nat.le_refl _, by simp, Nat.le_add_right _ _, by simpa⟩
        · rintro ⟨part, behind, found, covers, _⟩
          by_cases same : index = base
          · exact same.symm
          · rw [show index - base = index - base - 1 + 1 by omega,
              List.getElem?_cons_succ] at found
            have := (cutRest.of_getElem? found).1
            omega
      · rw [List.getElem?_append_right (by simpa using Nat.le_of_not_lt inFirst),
          List.length_replicate, hypothesis]
        dsimp only
        constructor
        · rintro ⟨part, behind, found, covers, covered⟩
          refine ⟨part, by omega, ?_, by omega, by omega⟩
          rw [show index - base = index - (base + 1) + 1 by omega, List.getElem?_cons_succ]
          exact found
        · rintro ⟨part, behind, found, covers, covered⟩
          by_cases same : index = base
          · subst same
            simp only [Nat.sub_self, List.getElem?_cons_zero, Option.some.injEq] at found
            subst found
            dsimp only at covered
            omega
          · rw [show index - base = index - (base + 1) + 1 by omega,
              List.getElem?_cons_succ] at found
            exact ⟨part, by omega, found, by omega, by omega⟩

/-- All positions are noted. -/
theorem length_owners
    (cut : Cut leaders start parts instructions)
    (base : Nat) :
    ((parts.zipIdx base).flatMap fun entry =>
      List.replicate entry.1.2.length entry.2).length = instructions.length := by
  induction cut generalizing base with
  | nil => simp
  | @cons start run rest remaining nonempty inner led cutRest hypothesis =>
      rw [List.zipIdx_cons, List.flatMap_cons, List.length_append, hypothesis]
      simp

end Cut

/-- The parts of a body are cut exactly at the leaders. -/
theorem cut_segments (leaders : Array Bool) (instructions : List Instruction) :
    Cut leaders 0 (segments leaders instructions) instructions := by
  have general : ∀ start, Cut leaders start
      ((instructions.zipIdx start).foldr (segmentStep leaders) []) instructions := by
    induction instructions with
    | nil => exact fun start => Cut.nil start
    | cons instruction rest hypothesis =>
        intro start
        rw [List.zipIdx_cons, List.foldr_cons]
        exact (hypothesis (start + 1)).segmentStep instruction
  exact general 0

/-- A position belongs to the part that is noted for it, and to no other one. -/
theorem getElem?_segmentOf
    {leaders : Array Bool}
    {parts : List (Nat × List Instruction)}
    {instructions : List Instruction}
    (cut : Cut leaders 0 parts instructions)
    (position index : Nat) :
    (segmentOf parts)[position]? = some index ↔
      ∃ part, parts[index]? = some part ∧
        part.1 ≤ position ∧ position < part.1 + part.2.length := by
  have owners := cut.getElem?_owners 0 position index
  simp only [Nat.zero_le, Nat.sub_zero, Nat.zero_add, true_and] at owners
  rw [← owners, segmentOf, List.getElem?_toArray]

/-- A position is noted if it is one of the body. -/
theorem size_segmentOf
    {leaders : Array Bool}
    {parts : List (Nat × List Instruction)}
    {instructions : List Instruction}
    (cut : Cut leaders 0 parts instructions) :
    (segmentOf parts).size = instructions.length := by
  rw [segmentOf, List.size_toArray]
  exact cut.length_owners 0

/-- The flags of some positions tell which of them are listed. -/
theorem getD_flagged (count : Nat) (listed : List Nat) (position : Nat) :
    (flagged count listed).getD position false = true ↔ position ∈ listed ∧ position < count := by
  have general : ∀ flags : Array Bool, flags.size = count →
      ((listed.foldl (fun flags position => flags.setIfInBounds position true) flags).getD
          position false = true ↔
        (position ∈ listed ∧ position < count) ∨ flags.getD position false = true) := by
    induction listed with
    | nil => simp
    | cons first rest hypothesis =>
        intro flags size_eq
        rw [List.foldl_cons, hypothesis _ (by simp [size_eq])]
        by_cases same : first = position
        · subst same
          by_cases inside : first < count
          · simp [Array.getD, size_eq, inside]
          · simp [Array.getD, size_eq, inside]
        · simp [Array.getD_eq_getD_getElem?, same, Ne.symm same]
  rw [flagged, general _ (by simp)]
  simp [Array.getD_eq_getD_getElem?, Array.getElem?_replicate]
  split <;> simp

/-- Numbers in ascending order are the same numbers. -/
theorem mem_ascending {numbers : List Nat} {number : Nat} :
    number ∈ ascending numbers ↔ number ∈ numbers := by
  have loop : ∀ (first : Nat) (rest done : List Nat),
      number ∈ List.eraseRepsBy.loop (· == ·) first rest done ↔
        number ∈ done ∨ number = first ∨ number ∈ rest := by
    intro first rest
    induction rest generalizing first with
    | nil => simp [List.eraseRepsBy.loop, or_comm]
    | cons second rest hypothesis =>
        intro done
        unfold List.eraseRepsBy.loop
        split
        next same =>
            rw [hypothesis, beq_iff_eq.mp same]
            simp
        next =>
            rw [hypothesis]
            simp only [List.mem_cons]
            constructor
            · rintro ((isFirst | isDone) | isSecond | later)
              · exact Or.inr (Or.inl isFirst)
              · exact Or.inl isDone
              · exact Or.inr (Or.inr (Or.inl isSecond))
              · exact Or.inr (Or.inr (Or.inr later))
            · rintro (isDone | isFirst | isSecond | later)
              · exact Or.inl (Or.inr isDone)
              · exact Or.inl (Or.inl isFirst)
              · exact Or.inr (Or.inl isSecond)
              · exact Or.inr (Or.inr later)
  unfold ascending
  rw [← @List.mem_mergeSort _ (fun left right => decide (left ≤ right)) number numbers]
  cases numbers.mergeSort fun left right => decide (left ≤ right) with
  | nil => simp [List.eraseReps, List.eraseRepsBy]
  | cons first rest =>
      rw [List.eraseReps, List.eraseRepsBy, loop]
      simp

end FlowGraph
end StackMaps
