import StackMaps.Proofs.Slots.Backing

/-!
# Tracked allocations

A tracked state tells apart all objects that have ever been allocated. An uninitialized
object carries the number of its allocation, counted along a path, and a log lists the
positions of all allocations on the path. Without the numbers a tracked state is one of
the inference, as long as only latest allocations are present.
-/

namespace StackMaps

/-- The allocation with the given number is the latest one at its position. -/
structure IsLatest (log : List Nat) (number position : Nat) : Prop where
  logged : log[number]? = some position
  last : ∀ later, number < later → log[later]? ≠ some position

theorem IsLatest.append
    {log : List Nat}
    {number position other : Nat}
    (latest : IsLatest log number position)
    (distinct : position ≠ other) :
    IsLatest (log ++ [other]) number position := by
  have inside := (List.getElem?_eq_some_iff.mp latest.logged).1
  refine ⟨by rw [List.getElem?_append_left inside, latest.logged], fun later after => ?_⟩
  by_cases within : later < log.length
  · rw [List.getElem?_append_left within]
    exact latest.last later after
  · rw [List.getElem?_append_right (Nat.le_of_not_lt within)]
    cases later - log.length with
    | zero => simpa using distinct.symm
    | succ beyond => simp

theorem isLatest_append_self (log : List Nat) (position : Nat) :
    IsLatest (log ++ [position]) log.length position where
  logged := by simp
  last later after := by
    have beyond : (log ++ [position]).length ≤ later := by
      rw [List.length_append]
      exact after
    simp [List.getElem?_eq_none beyond]

theorem IsLatest.eq
    {log : List Nat}
    {number other position : Nat}
    (latest : IsLatest log number position)
    (otherLatest : IsLatest log other position) :
    number = other := by
  rcases Nat.lt_trichotomy number other with less | same | greater
  · exact absurd otherLatest.logged (latest.last other less)
  · exact same
  · exact absurd latest.logged (otherLatest.last number greater)

/-- A state with the numbers of allocations as the origins of uninitialized objects, and the
positions of all allocations so far. -/
structure Tracked where
  state : SlotState
  log : List Nat

namespace Tracked

/-- The position of an allocation. -/
def positionOf (log : List Nat) (number : Nat) : Nat :=
  log.getD number 0

/-- The state with the positions of allocations in place of their numbers. -/
def erase (tracked : Tracked) : SlotState :=
  tracked.state.rename (positionOf tracked.log)

/-- All uninitialized objects are of the latest allocations at their positions. -/
def Current (tracked : Tracked) : Prop :=
  ∀ number, tracked.state.Mentions number →
    IsLatest tracked.log number (positionOf tracked.log number)

/-- The instructions as they are looked up by the numbers of allocations. -/
def context (tracked : Tracked) (method : MethodContext) : MethodContext :=
  { method with
    instructions := (tracked.log.map fun position =>
      method.instructions.getD position (.simple .nop)).toArray }

/-- Carry out an instruction at a position. An allocation gets the next number. -/
def interpret
    (tracked : Tracked)
    (method : MethodContext)
    (position : Nat)
    (instruction : Instruction) : Tracked :=
  { state := tracked.state.interpret (tracked.context method) tracked.log.length instruction
    log := if instruction.isNew then tracked.log ++ [position] else tracked.log }

/-- Keep only the bottom of the stack. -/
def enterHandler (tracked : Tracked) : Tracked :=
  { tracked with state := tracked.state.enterHandler }

variable {tracked : Tracked} {method : MethodContext} {position : Nat} {instruction : Instruction}

theorem allocatedAt?_context
    {number : Nat}
    (inside : number < tracked.log.length) :
    (tracked.context method).allocatedAt? number =
      method.allocatedAt? (positionOf tracked.log number) := by
  simp only [MethodContext.allocatedAt?, context, positionOf, List.getElem?_toArray,
    List.getElem?_map, List.getElem?_eq_getElem inside, List.getD_eq_getElem?_getD, Option.map_some,
    Option.getD_some, Array.getD_eq_getD_getElem?]
  cases method.instructions[tracked.log[number]]? <;> rfl

theorem positionOf_append
    {log : List Nat}
    {number : Nat}
    (inside : number < log.length)
    (others : List Nat) :
    positionOf (log ++ others) number = positionOf log number := by
  simp only [positionOf, List.getD_eq_getElem?_getD, List.getElem?_append_left inside]

theorem Current.lt (current : tracked.Current) {number : Nat}
    (mentions : tracked.state.Mentions number) :
    number < tracked.log.length :=
  (List.getElem?_eq_some_iff.mp (current number mentions).logged).1

theorem Current.enterHandler (current : tracked.Current) : tracked.enterHandler.Current :=
  fun number mentions => current number (SlotState.mentions_enterHandler mentions)

theorem erase_enterHandler : tracked.enterHandler.erase = tracked.erase.enterHandler :=
  SlotState.rename_enterHandler

/-- The numbers can be forgotten before an instruction or behind it. -/
theorem Current.erase_interpret (current : tracked.Current) :
    (tracked.interpret method position instruction).erase =
      tracked.erase.interpret method position instruction := by
  have grown : ∀ number, number < tracked.log.length →
      positionOf (tracked.interpret method position instruction).log number =
        positionOf tracked.log number := by
    intro number inside
    unfold interpret
    dsimp only
    split
    · exact positionOf_append inside _
    · rfl
  have same : tracked.erase =
      tracked.state.rename (positionOf (tracked.interpret method position instruction).log) :=
    SlotState.rename_congr fun number mentions => (grown number (current.lt mentions)).symm
  have renames : tracked.state.Renames
      (positionOf (tracked.interpret method position instruction).log) (tracked.context method)
      method := by
    refine ⟨rfl, fun number other mentions otherMentions equal => ?_, fun number mentions => ?_⟩
    · rw [grown number (current.lt mentions), grown other (current.lt otherMentions)] at equal
      exact (current number mentions).eq (equal ▸ current other otherMentions)
    · rw [grown number (current.lt mentions), allocatedAt?_context (current.lt mentions)]
  rw [same]
  refine renames.rename_interpret fun isNew => ?_
  simp [interpret, isNew, positionOf]

/-- An allocation at a position that nothing refers to keeps all objects those of latest
allocations. -/
theorem Current.interpret
    (current : tracked.Current)
    (fresh : instruction.isNew = true → ¬tracked.erase.Mentions position) :
    (tracked.interpret method position instruction).Current := by
  intro number mentions
  rcases SlotState.mentions_of_interpret mentions with before | ⟨isNew, rfl⟩
  · have latest := current number before
    cases isNew : instruction.isNew with
    | false => simpa [Tracked.interpret, isNew] using latest
    | true =>
        simp only [Tracked.interpret, isNew, if_true]
        rw [positionOf_append (current.lt before)]
        refine latest.append fun same => fresh isNew ?_
        exact SlotState.mentions_rename_iff.mpr ⟨number, before, same⟩
  · simp only [Tracked.interpret, isNew, if_true]
    have latest := isLatest_append_self tracked.log position
    simpa [positionOf] using latest

/-- The slots with uninitialized objects of an origin are the copies of one object. -/
structure Copies (tracked : Tracked) (origin number : Nat) : Prop where
  locals : ∀ index : Nat, tracked.erase.locals[index]? = some (some (.uninitialized origin)) ↔
    tracked.state.locals[index]? = some (some (.uninitialized number))
  stack : ∀ index : Nat, tracked.erase.stack.slots[index]? = some (some (.uninitialized origin)) ↔
    tracked.state.stack.slots[index]? = some (some (.uninitialized number))
  /-- To complete all objects of the origin is to complete this one. -/
  completed : ∀ operand : RefType,
    tracked.erase.replaceAll (.uninitialized origin) (.object operand) =
      { tracked with
        state := tracked.state.replaceAll (.uninitialized number) (.object operand) }.erase

/-- If all objects are those of latest allocations, an origin stands for one object. -/
theorem Current.exists_copies
    (current : tracked.Current)
    {origin : Nat}
    (mentions : tracked.erase.Mentions origin) :
    ∃ number, IsLatest tracked.log number origin ∧ tracked.Copies origin number := by
  obtain ⟨number, held, rfl⟩ := SlotState.mentions_rename_iff.mp mentions
  have latest := current number held
  have same : ∀ slot, slot ∈ tracked.state.locals ∨ slot ∈ tracked.state.stack.slots →
      (renameSlot (positionOf tracked.log) slot =
          some (.uninitialized (positionOf tracked.log number)) ↔
        slot = some (.uninitialized number)) := by
    intro slot present
    rw [renameSlot_eq_uninitialized_iff]
    constructor
    · rintro ⟨other, rfl, equal⟩
      rw [(equal ▸ current other present : IsLatest tracked.log other _).eq latest]
    · rintro rfl
      exact ⟨number, rfl, rfl⟩
  have lookup : ∀ slots : List Slot, (∀ slot ∈ slots,
      slot ∈ tracked.state.locals ∨ slot ∈ tracked.state.stack.slots) → ∀ index : Nat,
      ((slots.map (renameSlot (positionOf tracked.log)))[index]? =
          some (some (.uninitialized (positionOf tracked.log number))) ↔
        slots[index]? = some (some (.uninitialized number))) := by
    intro slots within index
    rw [List.getElem?_map]
    cases found : slots[index]? with
    | none => simp
    | some slot => simpa using same slot (within slot (List.mem_of_getElem? found))
  refine ⟨number, latest, ?_, ?_, fun operand => ?_⟩
  · exact lookup _ fun slot present => Or.inl present
  · exact lookup _ fun slot present => Or.inr present
  · exact (@SlotState.rename_replaceAll _ _ (.uninitialized number) (.object operand)
      fun slot present => (same slot present).mp).symm

/-! ## Successors -/

/-- Known slots, with the numbers of the objects that lie in the same places among others. -/
def identify (known others : List Slot) : List Slot :=
  known.mapIdx fun index slot =>
    match slot with
    | some (.uninitialized _) => (others[index]?).join
    | _ => slot

/-- The entry of a successor, with the objects that come along an edge. -/
def enter (tracked : Tracked) (input : SlotState) : Tracked :=
  { tracked with
    state :=
      ⟨identify input.locals tracked.state.locals,
        .ofList
          (identify input.stack.slots.reverse tracked.state.stack.slots.reverse).reverse⟩ }

theorem mem_of_mem_identify
    {known others : List Slot}
    {number : Nat}
    (present : some (.uninitialized number) ∈ identify known others) :
    some (.uninitialized number) ∈ others := by
  obtain ⟨index, inside, found⟩ := List.mem_mapIdx.mp present
  split at found
  · exact List.mem_of_getElem? (Option.join_eq_some_iff.mp found)
  · next other => exact absurd found (other number)

/-- Without the numbers, the slots that have been identified are the known ones. -/
theorem map_identify
    {onOrigin : Nat → Nat}
    {known others : List Slot}
    (backed : Backed known (others.map (renameSlot onOrigin))) :
    (identify known others).map (renameSlot onOrigin) = known := by
  refine List.ext_getElem? fun index => ?_
  rw [List.getElem?_map, identify, List.getElem?_mapIdx, Option.map_map]
  cases found : known[index]? with
  | none => rfl
  | some slot =>
      rw [Option.map_some, Function.comp_apply]
      split
      next origin =>
          have same := backed index origin found
          rw [List.getElem?_map, Option.map_eq_some_iff] at same
          obtain ⟨other, other_eq, renamed⟩ := same
          rw [other_eq, Option.join_some, renamed]
      next plain =>
          cases slot with
          | none => rfl
          | some type =>
              cases type with
              | uninitialized origin => exact absurd rfl (plain origin)
              | _ => rfl

/-- Behind an edge only the numbers are present that came along it. -/
theorem Current.enter (current : tracked.Current) (input : SlotState) :
    (tracked.enter input).Current := by
  rintro number (inLocals | onStack)
  · exact current number (Or.inl (mem_of_mem_identify inLocals))
  · exact current number (Or.inr (List.mem_reverse.mp
      (mem_of_mem_identify (List.mem_reverse.mp onStack))))

theorem erase_enter {input : SlotState} (backed : input.BackedBy tracked.erase) :
    (tracked.enter input).erase = input := by
  refine SlotState.ext_slots (map_identify backed.locals) ?_
  have stack := backed.stack
  rw [erase, SlotState.slots_stack_rename, ← List.map_reverse] at stack
  simp only [erase, Tracked.enter, SlotState.slots_stack_rename, Stack.slots_ofList,
    List.map_reverse, map_identify stack, List.reverse_reverse]

end Tracked

end StackMaps
