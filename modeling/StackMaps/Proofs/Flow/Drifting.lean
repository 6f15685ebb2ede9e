import Mathlib.Data.List.DropRight
import StackMaps.Hierarchy.Table
import StackMaps.Proofs.Flow.FrameDecoding
import StackMaps.Proofs.Flow.Termination
import StackMaps.Proofs.Flow.WovenGraph
import StackMaps.Proofs.Hierarchy.Order

/-!
# Loops that drift

In a loop that hands its variables on, each to the next one, a new class takes one round
for every variable, however flat the hierarchy is. So there is a body for every threshold
the frames of which show the widening.
-/

namespace StackMaps

/-- The slot of an object of a class. -/
def objectSlot (name : BinaryName) : Slot := some (.object (.object name))

/-- The joins of two classes that meet in a third one. -/
structure Hierarchy.MeetIn (hierarchy : Hierarchy) (first second common : BinaryName) : Prop where
  meet : hierarchy.join (objectSlot second) (objectSlot first) = objectSlot common
  absorb : hierarchy.join (objectSlot common) (objectSlot first) = objectSlot common
  rise : hierarchy.join (objectSlot second) (objectSlot common) = objectSlot common
  distinct : second ≠ common

namespace Hierarchy

section Siblings

variable {classes : List BinaryName} {lookup : BinaryName → Option ClassRecord}
variable {mem_classes : ∀ name record, lookup name = some record → name ∈ classes}
variable {first second : BinaryName}

/-- A class right below the root is below no other class. -/
theorem not_classAssignable_of_siblings
    (grounded : Grounded lookup)
    (first_eq : lookup first = some ⟨some .object, [], false⟩)
    (distinct : first ≠ second)
    (second_ne : second ≠ .object) :
    (ofLookup classes lookup mem_classes).classAssignable first second = false := by
  rw [← Bool.not_eq_true, classAssignable_ofLookup_iff, not_or]
  refine ⟨second_ne, fun leads => ?_⟩
  rcases Relation.ReflTransGen.cases_head leads with same | ⟨above, step, later⟩
  · exact distinct same
  · simp only [supertypes, first_eq, ClassRecord.supertypes, Option.toList_some, List.append_nil,
      List.mem_singleton] at step
    rw [step] at later
    exact second_ne (eq_object_of_leads grounded.object_eq later)

/-- Two classes right below the root meet there. -/
theorem meetIn_object
    (grounded : Grounded lookup)
    (first_eq : lookup first = some ⟨some .object, [], false⟩)
    (second_eq : lookup second = some ⟨some .object, [], false⟩)
    (distinct : first ≠ second)
    (first_ne : first ≠ .object)
    (second_ne : second ≠ .object) :
    (ofLookup classes lookup mem_classes).MeetIn first second .object := by
  have upward := @not_classAssignable_of_siblings _ _ mem_classes _ _ grounded first_eq
    distinct second_ne
  have downward := @not_classAssignable_of_siblings _ _ mem_classes _ _ grounded second_eq
    distinct.symm first_ne
  have root : (ofLookup classes lookup mem_classes).classAssignable .object second = false := by
    rw [← Bool.not_eq_true, classAssignable_ofLookup_iff, not_or]
    exact ⟨second_ne, fun leads => second_ne (eq_object_of_leads grounded.object_eq leads)⟩
  have below := @classAssignable_object (ofLookup classes lookup mem_classes)
  have common_eq : (ofLookup classes lookup mem_classes).commonSuperclass second first =
      .object := by
    have above : ((ofLookup classes lookup mem_classes).lookup second).bind (·.superclass) =
        some .object := by
      have record_eq : (ofLookup classes lookup mem_classes).lookup second =
          some ⟨some .object, [], false⟩ := second_eq
      rw [record_eq]
      rfl
    have listed : second ∈ (ofLookup classes lookup mem_classes).classes :=
      mem_classes _ _ second_eq
    rw [commonSuperclass, superclassFrom, if_neg (by rw [upward]; exact Bool.false_ne_true), above]
    simp only [listed, dif_pos]
    rw [superclassFrom, if_pos (below first)]
  refine ⟨?_, ?_, ?_, second_ne⟩
  · simp [join, joinType, objectSlot, commonSupertype, isAssignable, RefType.isAssignable, upward,
      downward, common_eq, distinct.symm]
  · simp [join, joinType, objectSlot, commonSupertype, isAssignable, RefType.isAssignable, below]
  · simp [join, joinType, objectSlot, commonSupertype, isAssignable, RefType.isAssignable, below,
      root, second_ne]

end Siblings

end Hierarchy

namespace Session

open FlowGraph

/-- From the last variable on, every one but the first takes over the value of the one
before it. -/
def shifts : Nat → List Instruction
  | 0 => []
  | count + 1 =>
      .var .aload (.ofNat count) :: .var .astore (.ofNat (count + 1)) :: shifts count

/-- A loop in which every variable hands its value on to the next one. -/
def driftingLoop (count : Nat) : Body :=
  .ofInstructions (.mark ⟨0⟩ :: (shifts count ++ [.branch .goto ⟨0⟩])) [] ⟨1⟩

/-- The loop as a block that leads back to itself. -/
def driftingBlock (count : Nat) : Block :=
  { start := 0
    instructions := (driftingLoop count).instructions
    successors := [(0, .normal)]
    handlers := []
    needsFrame := true }

variable {count : Nat} {instruction : Instruction}

theorem exists_var_of_mem_shifts (present : instruction ∈ shifts count) :
    ∃ index ≤ count, instruction = .var .aload (.ofNat index) ∨
      instruction = .var .astore (.ofNat index) := by
  induction count with
  | zero => cases present
  | succ count hypothesis =>
      rcases List.mem_cons.mp present with rfl | later
      · exact ⟨count, Nat.le_succ count, Or.inl rfl⟩
      · rcases List.mem_cons.mp later with rfl | earlier
        · exact ⟨count + 1, Nat.le_refl _, Or.inr rfl⟩
        · obtain ⟨index, le, same⟩ := hypothesis earlier
          exact ⟨index, Nat.le_succ_of_le le, same⟩

/-- Only the last instruction of the loop jumps. -/
theorem jumpTargets_driftingLoop
    {position : Nat}
    (found : (driftingLoop count).instructions[position]? = some instruction) :
    (position + 1 = (driftingLoop count).instructions.length ∧ instruction = .branch .goto ⟨0⟩) ∨
      (instruction.jumpTargets = [] ∧ instruction.endsBlock = false) := by
  have split_eq : (driftingLoop count).instructions =
      (.mark ⟨0⟩ :: shifts count) ++ [.branch .goto ⟨0⟩] := rfl
  rw [split_eq] at found ⊢
  by_cases early : position < (Instruction.mark ⟨0⟩ :: shifts count).length
  · rw [List.getElem?_append_left early] at found
    right
    rcases List.mem_cons.mp (List.mem_of_getElem? found) with rfl | shift
    · exact ⟨rfl, rfl⟩
    · obtain ⟨index, _, rfl | rfl⟩ := exists_var_of_mem_shifts shift
      · exact ⟨rfl, rfl⟩
      · exact ⟨rfl, rfl⟩
  · rw [List.getElem?_append_right (Nat.le_of_not_lt early)] at found
    left
    obtain ⟨inside, rfl⟩ := List.getElem?_eq_some_iff.mp found
    rw [List.length_append]
    simp only [List.length_singleton] at inside ⊢
    refine ⟨by omega, ?_⟩
    simp

theorem positionOf?_driftingLoop : (driftingLoop count).positionOf? ⟨0⟩ = some 0 := by
  simp [driftingLoop, Body.ofInstructions, Body.positionOf?, List.findIdx?_cons,
    Instruction.marks?]

/-- No block begins inside the loop. -/
theorem not_leads_driftingLoop {offset : Nat} (positive : 0 < offset) :
    (leadersOf (driftingLoop count)).getD offset false = false := by
  by_contra leads
  rw [Bool.not_eq_false, getD_leadersOf] at leads
  obtain ⟨inside, ⟨before, instruction, found, why⟩ | ⟨range, present, _⟩⟩ := leads
  · rcases jumpTargets_driftingLoop found with ⟨last, rfl⟩ | ⟨none, goesOn⟩
    · rcases why with ⟨label, jumps, placed⟩ | ⟨_, rfl⟩
      · obtain rfl : label = ⟨0⟩ := by simpa [Instruction.jumpTargets] using jumps
        rw [positionOf?_driftingLoop] at placed
        exact absurd (Option.some.inj placed) (Nat.ne_of_lt positive)
      · omega
    · rcases why with ⟨label, jumps, _⟩ | ⟨ends, _⟩
      · rw [none] at jumps
        cases jumps
      · rw [goesOn] at ends
        cases ends
  · cases present

theorem partsOf_driftingLoop :
    partsOf (driftingLoop count) = [(0, (driftingLoop count).instructions)] := by
  refine (cut_partsOf (driftingLoop count)).unique ?_
  have cut : Cut (leadersOf (driftingLoop count)) 0 [(0, (driftingLoop count).instructions)]
      ((driftingLoop count).instructions ++ []) :=
    .cons (by simp [driftingLoop, Body.ofInstructions])
      (fun offset positive _ => by rw [Nat.zero_add]; exact not_leads_driftingLoop positive)
      (fun more => absurd rfl more) (.nil _)
  rwa [List.append_nil] at cut

/-- The jump back leads to the only block. -/
theorem normalExits_driftingLoop :
    normalExits (labelPositions (driftingLoop count).instructions)
      (segmentOf (partsOf (driftingLoop count))) (0, (driftingLoop count).instructions) = [0] := by
  have last : (driftingLoop count).instructions.getLast? = some (.branch .goto ⟨0⟩) := by
    have split_eq : (driftingLoop count).instructions =
        (.mark ⟨0⟩ :: shifts count) ++ [.branch .goto ⟨0⟩] := rfl
    rw [split_eq, List.getLast?_concat]
  have owner : (segmentOf (partsOf (driftingLoop count)))[0]? = some 0 :=
    (getElem?_segmentOf (cut_partsOf (driftingLoop count)) 0 0).mpr
      ⟨(0, (driftingLoop count).instructions), by rw [partsOf_driftingLoop]; rfl,
        Nat.le_refl 0, by simp [driftingLoop, Body.ofInstructions]⟩
  simp only [normalExits, last]
  have stays : (Instruction.branch .goto ⟨0⟩).fallsThrough = false := by decide
  simp [targetPositions, Instruction.jumpTargets, getElem?_labelPositions,
    positionOf?_driftingLoop, owner, stays]

/-- The loop is one block. -/
theorem blocks_driftingLoop :
    (FlowGraph.ofBody (driftingLoop count)).blocks = #[driftingBlock count] := by
  have jumpedTo : (jumpedToOf (driftingLoop count)).getD 0 false = true := by
    rw [jumpedToOf, getD_flagged]
    refine ⟨List.mem_append_left _ (List.mem_flatMap.mpr ⟨.branch .goto ⟨0⟩, ?_, ?_⟩), ?_⟩
    · simp [driftingLoop, Body.ofInstructions]
    · exact mem_targetPositions.mpr ⟨⟨0⟩, List.mem_singleton_self _, positionOf?_driftingLoop⟩
    · simp [driftingLoop, Body.ofInstructions]
  have made : blockOfPart (driftingLoop count) 0 (0, (driftingLoop count).instructions) =
      driftingBlock count := by
    have ranges : rangesOf (driftingLoop count) = [] := rfl
    rw [blockOfPart, normalExits_driftingLoop, jumpedTo, ranges]
    simp [driftingBlock, exceptionExits, handlersIn, edges, ascending, List.eraseReps,
      List.eraseRepsBy, List.eraseRepsBy.loop]
  refine Array.ext_getElem? fun index => ?_
  rw [getElem?_blocks_ofBody, partsOf_driftingLoop]
  cases index with
  | zero => exact congrArg some made
  | succ index => rfl

/-! ## One round -/

/-- The slots of the variables of the loop. -/
def slotsOf (count : Nat) (slot : Nat → Slot) : List Slot :=
  (List.range (count + 1)).map slot

/-- The slots after every variable up to one has taken over the value before it. -/
def handedOn (upTo : Nat) (slot : Nat → Slot) (index : Nat) : Slot :=
  if 0 < index ∧ index ≤ upTo then slot (index - 1) else slot index

section Round

variable {slot : Nat → Slot} {method : MethodContext} {position : Nat}

theorem getElem?_slotsOf {index : Nat} (inside : index ≤ count) :
    (slotsOf count slot)[index]? = some (slot index) := by
  rw [slotsOf, List.getElem?_map, List.getElem?_range (Nat.lt_succ_of_le inside)]
  rfl

theorem interpret_load {index : Nat} (inside : index ≤ count) (few : count < 65536) :
    (⟨slotsOf count slot, .empty⟩ : SlotState).interpret method position
        (.var .aload (.ofNat index)) =
      ⟨slotsOf count slot, Stack.empty.push (slot index)⟩ := by
  have index_eq : (UInt16.ofNat index).toNat = index := by
    rw [UInt16.toNat_ofNat']
    omega
  have access_eq : (Instruction.var .aload (.ofNat index)).localAccess? =
      some ⟨index, .reference, false⟩ := by
    rw [Instruction.localAccess?, index_eq]
    rfl
  have within : index < (slotsOf count slot).length := by
    simp only [slotsOf, List.length_map, List.length_range]
    omega
  simp only [SlotState.interpret, access_eq, SlotState.access, Bool.false_eq_true, if_false,
    SlotState.touch, SlotState.extendTo, if_pos within, SlotState.localSlot,
    getElem?_slotsOf inside]
  rfl

theorem interpret_store
    (narrow : ∀ index, SlotState.isWideSlot (slot index) = false)
    {index : Nat}
    (inside : index + 1 ≤ count)
    (few : count < 65536)
    {value : Slot}
    (small : SlotState.isWideSlot value = false) :
    (⟨slotsOf count slot, Stack.empty.push value⟩ : SlotState).interpret method position
        (.var .astore (.ofNat (index + 1))) =
      ⟨slotsOf count fun other => if other = index + 1 then value else slot other, .empty⟩ := by
  have index_eq : (UInt16.ofNat (index + 1)).toNat = index + 1 := by
    rw [UInt16.toNat_ofNat']
    omega
  have access_eq : (Instruction.var .astore (.ofNat (index + 1))).localAccess? =
      some ⟨index + 1, .reference, true⟩ := by
    rw [Instruction.localAccess?, index_eq]
    rfl
  have within : index + 1 < (slotsOf count slot).length := by
    simp only [slotsOf, List.length_map, List.length_range]
    omega
  have top_eq : (⟨slotsOf count slot, Stack.empty.push value⟩ : SlotState).slotAt
      (LocalKind.reference.width - 1) = value := rfl
  simp only [SlotState.interpret, access_eq, SlotState.access, if_true, top_eq, SlotState.store,
    small, Bool.false_eq_true, if_false, SlotState.drop, SlotState.extendTo, if_pos within,
    SlotState.breakWideBefore]
  refine SlotState.mk.injEq .. ▸ ⟨?_, rfl⟩
  refine List.ext_getElem (by simp [slotsOf]) fun place _ _ => ?_
  simp only [slotsOf, List.getElem_set, List.getElem_modify, List.getElem_map,
    List.getElem_range, narrow, Bool.false_eq_true, if_false, ite_self, eq_comm]

/-- In a round of the loop every variable takes over the value before it. -/
theorem foldl_shifts
    {block : Block}
    (plain : block.handlers = [])
    (narrow : ∀ index, SlotState.isWideSlot (slot index) = false)
    {upTo : Nat}
    (inside : upTo ≤ count)
    (few : count < 65536) :
    ((shifts upTo).zipIdx position).foldl (block.stateAfter method)
        ⟨slotsOf count slot, .empty⟩ =
      ⟨slotsOf count (handedOn upTo slot), .empty⟩ := by
  induction upTo generalizing slot position with
  | zero =>
      have same : handedOn 0 slot = slot := by
        funext index
        simp only [handedOn]
        split
        · omega
        · rfl
      rw [same]
      rfl
  | succ upTo hypothesis =>
      have never : ∀ instruction, block.entersHandler instruction = false := by
        intro instruction
        simp only [Block.entersHandler, plain]
        split <;> rfl
      have moved : block.stateAfter method
          (block.stateAfter method ⟨slotsOf count slot, .empty⟩
            (.var .aload (.ofNat upTo), position))
          (.var .astore (.ofNat (upTo + 1)), position + 1) =
          ⟨slotsOf count fun other => if other = upTo + 1 then slot upTo else slot other,
            .empty⟩ := by
        simp only [Block.stateAfter, never, Bool.false_eq_true, if_false]
        rw [interpret_load (Nat.le_of_succ_le inside) few,
          interpret_store narrow inside few (narrow upTo)]
      have narrowThen : ∀ index, SlotState.isWideSlot
          (if index = upTo + 1 then slot upTo else slot index) = false := by
        intro index
        split
        · exact narrow _
        · exact narrow _
      have handed :
        handedOn upTo (fun other => if other = upTo + 1 then slot upTo else slot other) =
          handedOn (upTo + 1) slot := by
        funext index
        simp only [handedOn]
        rcases Nat.lt_trichotomy index (upTo + 1) with before | rfl | behind
        · grind
        · simp
        · grind
      rw [shifts, List.zipIdx_cons, List.zipIdx_cons, List.foldl_cons, List.foldl_cons, moved,
        hypothesis narrowThen (Nat.le_of_succ_le inside), handed]

/-- What goes back to the start of the loop. -/
theorem stateAt_driftingBlock
    (narrow : ∀ index, SlotState.isWideSlot (slot index) = false)
    (few : count < 65536) :
    (driftingBlock count).stateAt method ⟨slotsOf count slot, .empty⟩
        (driftingBlock count).instructions.length =
      ⟨slotsOf count (handedOn count slot), .empty⟩ := by
  have instructions_eq : (driftingBlock count).instructions =
      .mark ⟨0⟩ :: (shifts count ++ [.branch .goto ⟨0⟩]) := rfl
  rw [Block.stateAt, List.take_of_length_le (by simp), instructions_eq, List.zipIdx_cons,
    List.foldl_cons, List.zipIdx_append, List.foldl_append]
  have marked : (driftingBlock count).stateAfter method ⟨slotsOf count slot, .empty⟩
      (.mark ⟨0⟩, (driftingBlock count).start) = ⟨slotsOf count slot, .empty⟩ := rfl
  rw [marked, foldl_shifts rfl narrow (Nat.le_refl count) few]
  rfl

end Round

/-- Variables are merged one by one. -/
theorem mergeSlots_slotsOf
    (hierarchy : Hierarchy)
    (widen : Bool)
    (existing incoming : Nat → Slot) :
    hierarchy.mergeSlots widen (slotsOf count existing) (slotsOf count incoming) =
      slotsOf count fun index => hierarchy.mergeSlot widen (existing index) (incoming index) := by
  simp [Hierarchy.mergeSlots, slotsOf, List.zipWith_map, List.zipWith_self]

/-! ## The run -/

section Run

variable (hierarchy : Hierarchy) (threshold : Nat) (thisClass : BinaryName)

/-- The slots at the entry of the loop after a round. -/
def mergedRound (widen : Bool) (count : Nat) (slot : Nat → Slot) (index : Nat) : Slot :=
  hierarchy.mergeSlot widen (slot index) (handedOn count slot index)

/-- The only block of the loop, with some slots at its entry, after some visits. -/
structure Entered (count visits : Nat) (slot : Nat → Slot) (entry : Notes) : Prop where
  inputState_eq : entry.inputState = some ⟨slotsOf count slot, .empty⟩
  visits_eq : entry.visits = visits

section Round

variable {visits : Nat} {slot : Nat → Slot} {entry : Notes}

/-- What comes back from the end of the loop has been handed on. -/
theorem carried_driftingBlock
    (few : count < 65536)
    (narrow : ∀ index, SlotState.isWideSlot (slot index) = false)
    (entered : Entered count visits slot entry)
    (context : TypingContext) :
    Edge.normal.carried context ((driftingBlock count).interpret context entry) =
      ⟨slotsOf count (handedOn count slot), .empty⟩ := by
  rw [Edge.carried, Block.outputState_interpret, entered.inputState_eq, Option.getD_some,
    stateAt_driftingBlock narrow few]
  exact congrArg (SlotState.mk _) (Stack.ext List.drop_nil)

theorem merge_driftingBlock (entered : Entered count visits slot entry) (widen : Bool) :
    (driftingBlock count).merge hierarchy widen false
        ⟨slotsOf count (handedOn count slot), .empty⟩ entry =
      { entry with
        inputState := some ⟨slotsOf count (mergedRound hierarchy widen count slot), .empty⟩ } := by
  rw [Block.merge_of_handlers_eq_nil rfl, Block.mergedLocals, Block.mergedStack,
    entered.inputState_eq]
  simp only [mergeSlots_slotsOf]
  rfl

/-- After a round the loop waits for another one if its entry has changed. -/
theorem exists_round
    (few : count < 65536)
    (narrow : ∀ index, SlotState.isWideSlot (slot index) = false)
    (entered : Entered count visits slot entry)
    (rest : Worklist) :
    ∃ after,
      Entered count (visits + 1)
        (mergedRound hierarchy (threshold ≤ visits + 1) count slot) after ∧
      (slotsOf count (mergedRound hierarchy (threshold ≤ visits + 1) count slot) =
          slotsOf count slot →
        inferenceVisit (driftingLoop count) hierarchy threshold thisClass ⟨#[entry], rest⟩ 0 =
          ⟨#[after], rest⟩) ∧
      (slotsOf count (mergedRound hierarchy (threshold ≤ visits + 1) count slot) ≠
          slotsOf count slot →
        inferenceVisit (driftingLoop count) hierarchy threshold thisClass ⟨#[entry], rest⟩ 0 =
          (⟨#[after], rest⟩ : Progress).enqueue 0) := by
  have block_eq :
      (FlowGraph.ofBody (driftingLoop count)).blocks[0]? = some (driftingBlock count) := by
    rw [blocks_driftingLoop]
    rfl
  have successors_eq : (driftingBlock count).successors = [(0, .normal)] := rfl
  have noted : ∀ notes : Notes, (⟨#[notes], rest⟩ : Progress).notesOn 0 = notes := fun _ => rfl
  have recorded : ∀ before notes : Notes,
      (⟨#[before], rest⟩ : Progress).record 0 notes = ⟨#[notes], rest⟩ := fun _ _ => rfl
  have plain : Edge.normal.isException = false := rfl
  have visited : Entered count (visits + 1) slot ((driftingBlock count).interpret
      ((driftingLoop count).typingContext hierarchy threshold thisClass) entry) :=
    ⟨entered.inputState_eq, congrArg (· + 1) entered.visits_eq⟩
  refine ⟨{ (driftingBlock count).interpret
      ((driftingLoop count).typingContext hierarchy threshold thisClass) entry with
        inputState := some ⟨slotsOf count
          (mergedRound hierarchy (threshold ≤ visits + 1) count slot), .empty⟩ },
    ⟨rfl, visited.visits_eq⟩, ?_⟩
  simp only [inferenceVisit, visitTypes, block_eq, successors_eq, List.foldl_cons,
    List.foldl_nil, passTypes, noted, recorded, plain,
    carried_driftingBlock few narrow entered, merge_driftingBlock _ visited,
    visited.visits_eq, visited.inputState_eq, Option.some.injEq, SlotState.mk.injEq, and_true]
  exact ⟨fun same => if_pos same, fun changed => if_neg changed⟩

end Round

end Run

/-! ## Drifting -/

/-- The slots after some rounds. The first class has come as far as the last of as many
variables, of which this is known, and the others still have the second class. -/
def drifted (first second common : BinaryName) (last : Slot) (rounds index : Nat) : Slot :=
  if index = 0 then objectSlot first
  else if index < rounds then objectSlot common
  else if index = rounds then last
  else objectSlot second

section Slots

variable {hierarchy : Hierarchy} {first second common : BinaryName} {last : Slot}
variable {rounds : Nat}

theorem isWideSlot_drifted
    (narrow : SlotState.isWideSlot last = false)
    (index : Nat) :
    SlotState.isWideSlot (drifted first second common last rounds index) = false := by
  unfold drifted
  split
  · rfl
  split
  · rfl
  split
  · exact narrow
  · rfl

theorem mergeSlot_self (hierarchy : Hierarchy) (widen : Bool) (name : BinaryName) :
    hierarchy.mergeSlot widen (objectSlot name) (objectSlot name) = objectSlot name := by
  simp [Hierarchy.mergeSlot, Hierarchy.join, Hierarchy.joinType, objectSlot]

/-- What is unusable stays so. -/
theorem mergeSlot_top (hierarchy : Hierarchy) (widen : Bool) (name : BinaryName) :
    hierarchy.mergeSlot widen (some .top) (objectSlot name) = some .top := by
  simp [Hierarchy.mergeSlot, Hierarchy.join, Hierarchy.joinType, objectSlot]

theorem objectSlot_injective : Function.Injective objectSlot := by
  intro name other same
  injection same with same
  injection same with same
  injection same

variable (meetIn : hierarchy.MeetIn first second common)

include meetIn

theorem mergeSlot_absorb (widen : Bool) :
    hierarchy.mergeSlot widen (objectSlot common) (objectSlot first) = objectSlot common := by
  rw [Hierarchy.mergeSlot, meetIn.absorb]
  simp

/-- One more round brings the first class to one more variable. -/
theorem mergedRound_drifted
    {widen : Bool}
    (less : rounds < count)
    {index : Nat}
    (inside : index ≤ count) :
    mergedRound hierarchy widen count
        (drifted first second common (objectSlot common) rounds) index =
      drifted first second common (if widen then some .top else objectSlot common) (rounds + 1)
        index := by
  have other : objectSlot common ≠ objectSlot second :=
    fun same => meetIn.distinct (objectSlot_injective same).symm
  have meets : hierarchy.mergeSlot widen (objectSlot second) (objectSlot first) =
      if widen then some .top else objectSlot common := by
    rw [Hierarchy.mergeSlot, meetIn.meet]
    simp [other]
  have rises : hierarchy.mergeSlot widen (objectSlot second) (objectSlot common) =
      if widen then some .top else objectSlot common := by
    rw [Hierarchy.mergeSlot, meetIn.rise]
    simp [other]
  have absorbs := mergeSlot_absorb meetIn widen
  have itself := mergeSlot_self hierarchy widen
  unfold mergedRound handedOn drifted
  rcases Nat.lt_trichotomy index (rounds + 1) with before | rfl | behind
  · have after : ¬index = rounds + 1 := by omega
    rcases Nat.eq_zero_or_pos index with rfl | positive
    · simp [itself]
    · grind
  · grind
  · grind

/-- Once the first class has come everywhere a round changes nothing. -/
theorem mergedRound_drifted_of_arrived
    (widen : Bool)
    (arrived : last = objectSlot common ∨ last = some .top)
    {index : Nat}
    (inside : index ≤ count) :
    mergedRound hierarchy widen count (drifted first second common last count) index =
      drifted first second common last count index := by
  have absorbs := mergeSlot_absorb meetIn widen
  have itself := mergeSlot_self hierarchy widen
  have unusable := mergeSlot_top hierarchy widen
  unfold mergedRound handedOn drifted
  rcases Nat.eq_zero_or_pos index with rfl | positive
  · simp [itself]
  · grind

end Slots

section Run

variable (hierarchy : Hierarchy) (threshold : Nat) (thisClass : BinaryName)
variable {first second common : BinaryName}

theorem slotsOf_congr {slot other : Nat → Slot} (same : ∀ index ≤ count, slot index = other index) :
    slotsOf count slot = slotsOf count other :=
  List.map_congr_left fun index present =>
    same index (Nat.le_of_lt_succ (List.mem_range.mp present))

/-- The slot of the variable to which the first class has come in as many visits. -/
def arrival (common : BinaryName) (visits : Nat) : Slot :=
  if threshold ≤ visits then some .top else objectSlot common

theorem arrival_eq_or (common : BinaryName) (visits : Nat) :
    arrival threshold common visits = objectSlot common ∨
      arrival threshold common visits = some .top := by
  unfold arrival
  split
  · exact Or.inr rfl
  · exact Or.inl rfl

theorem isWideSlot_arrival (common : BinaryName) (visits : Nat) :
    SlotState.isWideSlot (arrival threshold common visits) = false := by
  rcases arrival_eq_or threshold common visits with same | same <;> rw [same] <;> rfl

/-- The locals at the start of the loop. -/
def driftingLocals (count : Nat) (first second : BinaryName) : List Slot :=
  objectSlot first :: List.replicate count (objectSlot second)

theorem slotsOf_drifted_zero (last : Slot) :
    slotsOf count (drifted first second common last 0) = driftingLocals count first second := by
  have others : drifted first second common last 0 ∘ Nat.succ = fun _ => objectSlot second := by
    funext index
    simp [drifted]
  rw [slotsOf, List.range_succ_eq_map, List.map_cons, List.map_map, others, List.map_const',
    List.length_range]
  rfl

theorem Entered.congr
    {visits : Nat}
    {slot other : Nat → Slot}
    {entry : Notes}
    (entered : Entered count visits slot entry)
    (same : ∀ index ≤ count, slot index = other index) :
    Entered count visits other entry :=
  ⟨slotsOf_congr same ▸ entered.inputState_eq, entered.visits_eq⟩

/-- From a round on the loop goes on until the first class has come everywhere, and for
one more round in which nothing changes. -/
theorem exists_ends_driftingLoop
    (meetIn : hierarchy.MeetIn first second common)
    (few : count < 65536)
    (late : count ≤ threshold)
    {remaining rounds : Nat}
    (sum : rounds + remaining = count)
    {entry : Notes}
    (entered : Entered count rounds
      (drifted first second common (arrival threshold common rounds) rounds) entry)
    {worklist : Worklist}
    (popped : worklist.pop = (some 0, ⟨[], [], #[false]⟩)) :
    ∃ last,
      Entered count (count + 1)
        (drifted first second common (arrival threshold common count) count) last ∧
      Progress.Ends (inferenceVisit (driftingLoop count) hierarchy threshold thisClass)
        (remaining + 1) ⟨#[entry], worklist⟩ ⟨#[last], ⟨[], [], #[false]⟩⟩ := by
  induction remaining generalizing rounds entry worklist with
  | zero =>
      obtain rfl : rounds = count := sum
      have narrow := @isWideSlot_drifted first second common _ rounds
        (isWideSlot_arrival threshold common rounds)
      have settled : ∀ index ≤ rounds, mergedRound hierarchy (threshold ≤ rounds + 1) rounds
          (drifted first second common (arrival threshold common rounds) rounds) index =
            drifted first second common (arrival threshold common rounds) rounds index :=
        fun index inside =>
          mergedRound_drifted_of_arrived meetIn _ (arrival_eq_or threshold common rounds) inside
      obtain ⟨after, enteredThen, stays, _⟩ :=
        exists_round hierarchy threshold thisClass few narrow entered ⟨[], [], #[false]⟩
      exact ⟨after, enteredThen.congr settled,
        .busy ⟨0, _, popped, (stays (slotsOf_congr settled)).symm⟩ (.idle rfl)⟩
  | succ remaining hypothesis =>
      have less : rounds < count := by omega
      have fresh : arrival threshold common rounds = objectSlot common :=
        if_neg (Nat.not_le_of_lt (less.trans_le late))
      rw [fresh] at entered
      have moved : ∀ index ≤ count, mergedRound hierarchy (threshold ≤ rounds + 1) count
          (drifted first second common (objectSlot common) rounds) index =
            drifted first second common (arrival threshold common (rounds + 1)) (rounds + 1)
              index := by
        intro index inside
        rw [mergedRound_drifted meetIn less inside, arrival]
        simp only [decide_eq_true_eq]
      have changed : slotsOf count (mergedRound hierarchy (threshold ≤ rounds + 1) count
          (drifted first second common (objectSlot common) rounds)) ≠
            slotsOf count (drifted first second common (objectSlot common) rounds) := by
        intro same
        have at_next := congrArg (·[rounds + 1]?) same
        simp only [getElem?_slotsOf (Nat.succ_le_of_lt less), moved _ (Nat.succ_le_of_lt less),
          Option.some.injEq] at at_next
        simp only [drifted, Nat.succ_ne_zero, if_false, Nat.lt_irrefl, if_true,
          Nat.not_lt_of_lt (Nat.lt_succ_self rounds), Nat.succ_ne_self] at at_next
        rcases arrival_eq_or threshold common (rounds + 1) with new | new
        · rw [new] at at_next
          exact meetIn.distinct (objectSlot_injective at_next).symm
        · rw [new] at at_next
          cases at_next
      obtain ⟨after, enteredThen, _, changes⟩ := exists_round hierarchy threshold thisClass few
        (isWideSlot_drifted rfl) entered ⟨[], [], #[false]⟩
      obtain ⟨last, enteredLast, ends⟩ := @hypothesis _ (by omega) _
        (enteredThen.congr moved) ⟨[], [0], #[true]⟩ rfl
      exact ⟨last, enteredLast, .busy ⟨0, _, popped, (changes changed).symm⟩ ends⟩

/-- All locals of the loop exist from the start. -/
theorem entryLocals_driftingLoop :
    entryLocals (driftingLoop count).instructions (driftingLocals count first second) =
      driftingLocals count first second := by
  have length_eq : (driftingLocals count first second).length = count + 1 := by
    simp [driftingLocals]
  have needed : localsNeeded (driftingLoop count).instructions
      (driftingLocals count first second).length ≤ count + 1 := by
    rw [localsNeeded_le_iff, length_eq]
    refine ⟨Nat.le_refl _, fun instruction present => ?_⟩
    rcases List.mem_cons.mp present with rfl | later
    · exact Nat.zero_le _
    rcases List.mem_append.mp later with shift | last
    · obtain ⟨index, le, rfl | rfl⟩ := exists_var_of_mem_shifts shift
      · have index_le : (UInt16.ofNat index).toNat ≤ index := Nat.mod_le _ _
        exact Nat.succ_le_succ (index_le.trans le)
      · have index_le : (UInt16.ofNat index).toNat ≤ index := Nat.mod_le _ _
        exact Nat.succ_le_succ (index_le.trans le)
    · rw [List.mem_singleton.mp last]
      exact Nat.zero_le _
  have none_missing : localsNeeded (driftingLoop count).instructions
      (driftingLocals count first second).length -
        (driftingLocals count first second).length = 0 := by omega
  rw [entryLocals, none_missing, List.replicate_zero, List.append_nil]

/-- What the loop is entered with in the end. -/
theorem exists_entered_driftingLoop
    (meetIn : hierarchy.MeetIn first second common)
    (few : count < 65536)
    (late : count ≤ threshold) :
    ∃ entry,
      Entered count (count + 1)
        (drifted first second common (arrival threshold common count) count) entry ∧
      ((FlowGraph.ofBody (driftingLoop count)).inferRun
        ((driftingLoop count).typingContext hierarchy threshold thisClass)
        (entryLocals (driftingLoop count).instructions
          (driftingLocals count first second))).notes = #[entry] := by
  have filled : (driftingLoop count).instructions ≠ [] := by
    simp [driftingLoop, Body.ofInstructions]
  have opening_eq : inferenceOpening (driftingLoop count) (driftingLocals count first second) =
      ⟨#[Notes.enterState (driftingLocals count first second) .blank], .single 1 0⟩ := by
    rw [inferenceOpening, entryLocals_driftingLoop, opening, blocks_driftingLoop]
    rfl
  have entered : Entered count 0 (drifted first second common (arrival threshold common 0) 0)
      (Notes.enterState (driftingLocals count first second) .blank) :=
    ⟨by rw [slotsOf_drifted_zero]; rfl, rfl⟩
  obtain ⟨entry, enteredLast, ends⟩ := exists_ends_driftingLoop hierarchy threshold thisClass
    meetIn few late (Nat.zero_add count) entered
    (show (Worklist.single 1 0).pop = (some 0, ⟨[], [], #[false]⟩) from rfl)
  rw [← opening_eq] at ends
  obtain ⟨bounded, last, count_le, endsToo⟩ := ends_inference_of_filled (driftingLoop count)
    hierarchy threshold thisClass (driftingLocals count first second) filled
  have enough := count_le.trans (visitBound_le_typingFuel (driftingLoop count) hierarchy threshold
    thisClass (driftingLocals count first second))
  refine ⟨entry, enteredLast, ?_⟩
  have same : last = ⟨#[entry], ⟨[], [], #[false]⟩⟩ :=
    (endsToo.run_eq (Nat.le_max_left bounded (count + 1))).symm.trans
      (ends.run_eq (Nat.le_max_right bounded (count + 1)))
  exact congrArg Progress.notes ((endsToo.run_eq enough).trans same)

end Run

/-! ## The frame of the loop -/

/-- A frame with objects as its locals. -/
def classFrame (names : List BinaryName) : Frame RefType Label :=
  ⟨names.map fun name => .object (.object name), []⟩

section Frames

variable {plan : LabelPlan} {names : List BinaryName}

theorem collapse_resolve_objectSlot (rest : List Slot) :
    collapse (plan.resolve (names.map objectSlot ++ rest)) =
      (classFrame names).locals ++ collapse (plan.resolve rest) := by
  induction names with
  | nil => rfl
  | cons name names hypothesis =>
      have head_eq : plan.resolve ((name :: names).map objectSlot ++ rest) =
          some (.object (.object name)) :: plan.resolve (names.map objectSlot ++ rest) := rfl
      rw [head_eq, collapse_cons]
      have narrow : ((some (.object (.object name)) :
          Option (VerificationType RefType Label)).getD .top).isWide = false := rfl
      rw [narrow, if_neg Bool.false_ne_true, hypothesis]
      rfl

/-- Objects as locals make the frame, and what is unusable behind them is left out. -/
theorem frame_objectSlot (filled : names ≠ []) (unusable : Prop) [Decidable unusable] :
    plan.frame ⟨names.map objectSlot ++ if unusable then [some .top] else [], .empty⟩ =
      classFrame names := by
  obtain ⟨initial, name, rfl⟩ := (List.eq_nil_or_concat' names).resolve_left filled
  have locals_eq : (classFrame (initial ++ [name])).locals =
      (classFrame initial).locals ++ [.object (.object name)] := by
    simp [classFrame]
  have kept : List.rdropWhile (· == .top) (classFrame (initial ++ [name])).locals =
      (classFrame (initial ++ [name])).locals := by
    rw [locals_eq, List.rdropWhile_concat_neg _ _ _ (by simp)]
  have dropped : List.rdropWhile (· == .top) ((classFrame (initial ++ [name])).locals ++ [.top]) =
      (classFrame (initial ++ [name])).locals := by
    rw [List.rdropWhile_concat_pos _ _ _ (by simp), kept]
  have stack_eq : collapse (plan.resolve (Stack.empty.slots.reverse)) = [] := collapse_nil
  have locals_ofSlots : ∀ state : SlotState, (plan.frame state).locals =
      List.rdropWhile (· == .top) (collapse (plan.resolve state.locals)) := fun _ => rfl
  have at_locals : (plan.frame ⟨(initial ++ [name]).map objectSlot ++
      if unusable then [some .top] else [], .empty⟩).locals =
        (classFrame (initial ++ [name])).locals := by
    rw [locals_ofSlots, collapse_resolve_objectSlot]
    by_cases isUnusable : unusable
    · have top_eq : collapse (plan.resolve [some .top]) = [.top] := by
        simp [LabelPlan.resolve, collapse_cons, VerificationType.map]
      rw [if_pos isUnusable, top_eq, dropped]
    · have none_eq : collapse (plan.resolve []) = [] := collapse_nil
      rw [if_neg isUnusable, none_eq, List.append_nil, kept]
  exact Frame.mk.injEq .. ▸ And.intro at_locals stack_eq

end Frames

section Run

variable (hierarchy : Hierarchy) (threshold : Nat) (thisClass : BinaryName)
variable {first second common : BinaryName}

/-- The classes in the frame of the loop. Where widening has come in between, the last
variable is unusable. -/
def arrivedClasses (count : Nat) (first common : BinaryName) : List BinaryName :=
  first :: List.replicate (if threshold ≤ count then count - 1 else count) common

/-- The slots with which the loop is entered in the end. -/
theorem slotsOf_drifted_count (positive : 0 < count) :
    slotsOf count (drifted first second common (arrival threshold common count) count) =
      (arrivedClasses threshold count first common).map objectSlot ++
        if threshold ≤ count then [some .top] else [] := by
  obtain ⟨before, rfl⟩ : ∃ before, count = before + 1 := ⟨count - 1, by omega⟩
  have others :
      (List.range before).map (drifted first second common
          (arrival threshold common (before + 1)) (before + 1) ∘ Nat.succ) =
        List.replicate before (objectSlot common) := by
    refine List.eq_replicate_iff.mpr ⟨by simp, fun slot present => ?_⟩
    obtain ⟨index, inRange, rfl⟩ := List.mem_map.mp present
    have less := List.mem_range.mp inRange
    simp only [Function.comp_apply, drifted, Nat.succ_ne_zero, if_false,
      Nat.succ_lt_succ less, if_true]
  have last_eq : drifted first second common (arrival threshold common (before + 1)) (before + 1)
      (before + 1) = arrival threshold common (before + 1) := by
    simp [drifted]
  rw [slotsOf, List.range_succ, List.map_append, List.range_succ_eq_map, List.map_cons,
    List.map_map, others, List.map_singleton, last_eq, arrivedClasses, arrival]
  have head_eq : drifted first second common (if threshold ≤ before + 1 then some .top else
      objectSlot common) (before + 1) 0 = objectSlot first := if_pos rfl
  split
  · simp [drifted]
  · simp [drifted, List.replicate_succ']

/-- The loop has its only frame at its first move. -/
theorem frameSites_driftingLoop
    (positive : 0 < count)
    {entry : Notes}
    {state : SlotState}
    (entered : entry.inputState = some state) :
    (FlowGraph.ofBody (driftingLoop count)).frameSites #[entry] = [⟨state, 1⟩] := by
  have first_eq : firstReal? (driftingBlock count) = some 1 := by
    obtain ⟨count, rfl⟩ := Nat.exists_eq_add_of_lt positive
    rfl
  simp only [frameSites, blocks_driftingLoop, List.zip_cons_cons, List.foldl_cons, siteStep,
    entered, first_eq]
  rfl

/-- The frame of the loop tells how far the first class has come. -/
theorem decodeAll_driftingLoop
    (meetIn : hierarchy.MeetIn first second common)
    (positive : 0 < count)
    (few : count < 65536)
    (late : count ≤ threshold) :
    StackMapFrame.decodeAll (classFrame (first :: List.replicate count second))
        ((((ofBody (driftingLoop count)).withThreshold threshold).computeFrames hierarchy
          thisClass (driftingLocals count first second)).1.frames.map (·.2)) =
      [classFrame (arrivedClasses threshold count first common)] := by
  have filled : (driftingLoop count).instructions ≠ [] := by
    simp [driftingLoop, Body.ofInstructions]
  obtain ⟨entry, entered, notes_eq⟩ := exists_entered_driftingLoop hierarchy threshold thisClass
    meetIn few late
  rw [framing_computeFrames threshold hierarchy thisClass _ filled, inferredFraming,
    notes_eq, entryLocals_driftingLoop, forms_framing,
    frameSites_driftingLoop positive entered.inputState_eq, List.map_singleton]
  have start_eq : ∀ plan : LabelPlan,
      plan.frame ⟨driftingLocals count first second, .empty⟩ =
        classFrame (first :: List.replicate count second) := by
    intro plan
    have locals_eq : driftingLocals count first second =
        (first :: List.replicate count second).map objectSlot ++
          if False then [some .top] else [] := by
      simp [driftingLocals]
    rw [locals_eq, frame_objectSlot (List.cons_ne_nil _ _)]
  rw [start_eq, Frame.decodeAll_compactAll, slotsOf_drifted_count threshold positive]
  exact congrArg (fun frame => [frame]) (frame_objectSlot (List.cons_ne_nil _ _) _)

/-- For every threshold there is a body the frames of which depend on it, over any
hierarchy with two classes that meet in a third one. -/
theorem frames_driftingLoop_ne
    (meetIn : hierarchy.MeetIn first second common)
    (positive : 0 < count)
    (few : count < 65536)
    {larger : Nat}
    (raised : count < larger) :
    (((ofBody (driftingLoop count)).withThreshold count).computeFrames hierarchy
        thisClass (driftingLocals count first second)).1.frames ≠
      (((ofBody (driftingLoop count)).withThreshold larger).computeFrames hierarchy
        thisClass (driftingLocals count first second)).1.frames := by
  intro same
  have narrowed := decodeAll_driftingLoop hierarchy count thisClass meetIn positive few
    (Nat.le_refl count)
  rw [same, decodeAll_driftingLoop hierarchy larger thisClass meetIn positive few
    (Nat.le_of_lt raised)] at narrowed
  have lengths := congrArg (·.map fun frame => frame.locals.length) narrowed
  simp only [List.map_cons, List.map_nil, classFrame, arrivedClasses, List.length_map,
    List.length_cons, List.length_replicate, if_pos (Nat.le_refl count),
    if_neg (Nat.not_le_of_lt raised), List.cons.injEq, and_true] at lengths
  omega

end Run

/-! ## A loop over two unrelated classes -/

/-- The depth of the stack in front of an instruction of the loop. -/
def driftingDepth (position : Nat) : Nat :=
  if position % 2 = 0 ∧ 0 < position then 1 else 0

theorem length_driftingLoop : (driftingLoop count).instructions.length = 2 * count + 2 := by
  have length_shifts : (shifts count).length = 2 * count := by
    induction count with
    | zero => rfl
    | succ count hypothesis =>
        simp only [shifts, List.length_cons, hypothesis]
        omega
  simp [driftingLoop, Body.ofInstructions, length_shifts]

/-- Loads and stores take turns. -/
theorem exists_index_of_getElem?_shifts
    {place : Nat}
    (found : (shifts count)[place]? = some instruction) :
    ∃ index, instruction =
      if place % 2 = 0 then .var .aload index else .var .astore index := by
  induction count generalizing place with
  | zero => cases found
  | succ count hypothesis =>
      match place with
      | 0 => exact ⟨_, (Option.some.inj found).symm⟩
      | 1 => exact ⟨_, (Option.some.inj found).symm⟩
      | place + 2 =>
          rw [Nat.add_mod_right]
          exact hypothesis found

/-- Wherever control comes in the loop, the stack has one depth. -/
theorem depth_of_depthReached_driftingLoop
    {position depth : Nat}
    (reached : (driftingLoop count).DepthReached position depth) :
    depth = driftingDepth position := by
  have filled : (driftingLoop count).instructions ≠ [] := by
    simp [driftingLoop, Body.ofInstructions]
  have limit := Body.depthLimit_pos filled
  have behind : ∀ depth instruction, (driftingLoop count).depthBehind depth instruction =
      min (depth - instruction.stackEffect.pops + instruction.stackEffect.pushes)
        (driftingLoop count).depthLimit := fun _ _ => rfl
  induction reached with
  | entry _ => rfl
  | @next position depth instruction _ found falls inside hypothesis =>
      subst hypothesis
      rcases jumpTargets_driftingLoop found with ⟨last, _⟩ | _
      · omega
      cases position with
      | zero =>
          obtain rfl : instruction = .mark ⟨0⟩ := (Option.some.inj found).symm
          rw [behind]
          exact Nat.zero_min _
      | succ place =>
          rw [length_driftingLoop] at inside
          have early : place < (shifts count).length := by
            have := @length_driftingLoop count
            simp only [driftingLoop, Body.ofInstructions, List.length_cons, List.length_append,
              List.length_nil] at this
            omega
          have shift : (shifts count)[place]? = some instruction :=
            (List.getElem?_append_left early).symm.trans found
          obtain ⟨index, rfl⟩ := exists_index_of_getElem?_shifts shift
          rw [behind]
          by_cases even : place % 2 = 0
          · have here : driftingDepth (place + 1) = 0 := if_neg (by omega)
            have next : driftingDepth (place + 1 + 1) = 1 := if_pos (by omega)
            rw [if_pos even, here, next]
            exact Nat.min_eq_left limit
          · have here : driftingDepth (place + 1) = 1 := if_pos (by omega)
            have next : driftingDepth (place + 1 + 1) = 0 := if_neg (by omega)
            rw [if_neg even, here, next]
            exact Nat.zero_min _
  | @jump position depth target instruction label _ found jumps placed hypothesis =>
      subst hypothesis
      rcases jumpTargets_driftingLoop found with ⟨last, rfl⟩ | ⟨none, _⟩
      · obtain rfl : label = ⟨0⟩ := by simpa [Instruction.jumpTargets] using jumps
        rw [positionOf?_driftingLoop] at placed
        obtain rfl := Option.some.inj placed
        rw [length_driftingLoop] at last
        have here : driftingDepth position = 0 := if_neg (by omega)
        rw [behind, here]
        exact Nat.zero_min _
      · rw [none] at jumps
        cases jumps
  | throw _ places _ _ _ => cases places.mem_ranges

/-- Two classes below the root. -/
def unrelatedTable : ClassTable :=
  ⟨[(.object, ⟨none, [], false⟩), (.string, ⟨some .object, [], false⟩),
    (.throwable, ⟨some .object, [], false⟩)]⟩

theorem meetIn_unrelatedTable : unrelatedTable.hierarchy.MeetIn .string .throwable .object :=
  Hierarchy.meetIn_object ⟨by decide, by decide, by decide⟩ (by decide) (by decide) (by decide)
    (by decide) (by decide)

/-- With the default threshold the loop has other frames than with a larger one. -/
theorem frames_driftingLoop_default :
    (∀ entry ∈ unrelatedTable.entries, entry.1 = .object ∨
        entry.2.superclass = some .object ∧ entry.2.interfaces = []) ∧
      (∀ position depth other, (driftingLoop 64).DepthReached position depth →
        (driftingLoop 64).DepthReached position other → depth = other) ∧
      ((ofBody (driftingLoop 64)).computeFrames unrelatedTable.hierarchy .object
          (driftingLocals 64 .string .throwable)).1.frames ≠
        (((ofBody (driftingLoop 64)).withThreshold 65).computeFrames unrelatedTable.hierarchy
          .object (driftingLocals 64 .string .throwable)).1.frames := by
  refine ⟨by decide, fun position depth other reached otherReached => ?_, ?_⟩
  · exact (depth_of_depthReached_driftingLoop reached).trans
      (depth_of_depthReached_driftingLoop otherReached).symm
  · have default_eq : (ofBody (driftingLoop 64)).withThreshold 64 = ofBody (driftingLoop 64) := rfl
    have differ := frames_driftingLoop_ne unrelatedTable.hierarchy .object
      meetIn_unrelatedTable (by decide : 0 < 64) (by decide) (by decide : 64 < 65)
    rwa [default_eq] at differ

end Session

end StackMaps
