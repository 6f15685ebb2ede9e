import StackMaps.Flow.Typing
import StackMaps.Proofs.Slots.Order

/-!
# Merging into entries

A block takes account of incoming slots when these add nothing to its entry any
more. It does so after a merge with them, over an orderly hierarchy it still does
after a merge with others, and from then on a merge with them changes nothing.
-/

namespace StackMaps
namespace Block

variable {block : Block} {notes : Notes}
variable {hierarchy : Hierarchy} {widen fromException : Bool} {incoming : SlotState}

/-- The locals at the entry after a merge. -/
def mergedLocals
    (hierarchy : Hierarchy)
    (widen : Bool)
    (incoming : SlotState)
    (notes : Notes) : List Slot :=
  match notes.inputState with
  | none => incoming.locals
  | some input => hierarchy.mergeSlots widen input.locals incoming.locals

/-- The stack at the entry of a block without handlers after a merge. -/
def mergedStack
    (hierarchy : Hierarchy)
    (widen : Bool)
    (incoming : SlotState)
    (notes : Notes) : Stack :=
  match notes.inputState with
  | none => incoming.stack
  | some input => hierarchy.mergeStack widen input.stack incoming.stack

/-- The exception of a handler after a merge. -/
def mergedCaught
    (hierarchy : Hierarchy)
    (widen fromException : Bool)
    (incoming : SlotState)
    (notes : Notes) : Slot :=
  if fromException then
    if hierarchy.join notes.caught incoming.peek = notes.caught then notes.caught
    else if widen && notes.caught.isSome then some .top
    else hierarchy.join notes.caught incoming.peek
  else notes.caught

/-- The exception of a handler changes only if something is added to it. -/
theorem mergedCaught_eq_or (hierarchy : Hierarchy) (widen fromException : Bool)
    (incoming : SlotState) (notes : Notes) :
    mergedCaught hierarchy widen fromException incoming notes = notes.caught ∨
      ¬hierarchy.SlotLe incoming.peek notes.caught ∧
        mergedCaught hierarchy widen fromException incoming notes =
          if widen && notes.caught.isSome then some .top
          else hierarchy.join notes.caught incoming.peek := by
  unfold mergedCaught
  by_cases thrown : fromException = true
  · rw [if_pos thrown]
    by_cases same : hierarchy.join notes.caught incoming.peek = notes.caught
    · exact Or.inl (if_pos same)
    · exact Or.inr ⟨same, if_neg same⟩
  · exact Or.inl (if_neg thrown)

/-- The merged locals are within a bound exactly if both lists of locals are. -/
theorem length_mergedLocals_le_iff (hierarchy : Hierarchy) (widen : Bool) {bound : Nat} :
    (mergedLocals hierarchy widen incoming notes).length ≤ bound ↔
      incoming.locals.length ≤ bound ∧
        ∀ known, notes.inputState = some known → known.locals.length ≤ bound := by
  unfold mergedLocals
  cases notes.inputState with
  | none => simp
  | some input =>
      rw [Hierarchy.length_mergeSlots, Nat.max_le, and_comm]
      simp

/-- The merged stack is within a bound exactly if both stacks are. -/
theorem depth_mergedStack_le_iff (hierarchy : Hierarchy) (widen : Bool) {bound : Nat} :
    (mergedStack hierarchy widen incoming notes).depth ≤ bound ↔
      incoming.stack.depth ≤ bound ∧
        ∀ known, notes.inputState = some known → known.stack.depth ≤ bound := by
  unfold mergedStack
  cases notes.inputState with
  | none => simp
  | some input =>
      rw [Hierarchy.depth_mergeStack, Nat.max_le, and_comm]
      simp

theorem merge_of_handlers_eq_nil (plain : block.handlers = []) :
    block.merge hierarchy widen fromException incoming notes =
      { notes with
        inputState := some
          { locals := mergedLocals hierarchy widen incoming notes
            stack := mergedStack hierarchy widen incoming notes } } := by
  unfold merge mergedLocals mergedStack
  rw [if_pos (by simp [plain])]
  cases notes.inputState <;> rfl

theorem merge_of_handlers_ne_nil (handles : block.handlers ≠ []) :
    block.merge hierarchy widen fromException incoming notes =
      { notes with
        caught := mergedCaught hierarchy widen fromException incoming notes
        inputState := some
          { locals := mergedLocals hierarchy widen incoming notes
            stack := .ofList [mergedCaught hierarchy widen fromException incoming notes] } } := by
  unfold merge
  rw [if_neg (by simpa using handles)]
  rfl

/-- The locals are merged alike with handlers and without. -/
theorem locals_inputState_merge
    {state : SlotState}
    (entered :
      (block.merge hierarchy widen fromException incoming notes).inputState = some state) :
    state.locals = mergedLocals hierarchy widen incoming notes := by
  by_cases plain : block.handlers = []
  · rw [merge_of_handlers_eq_nil plain] at entered
    cases entered
    rfl
  · rw [merge_of_handlers_ne_nil plain] at entered
    cases entered
    rfl

theorem isSome_inputState_merge :
    (block.merge hierarchy widen fromException incoming notes).inputState.isSome := by
  by_cases plain : block.handlers = []
  · rw [merge_of_handlers_eq_nil plain]
    rfl
  · rw [merge_of_handlers_ne_nil plain]
    rfl

@[simp] theorem visits_merge :
    (block.merge hierarchy widen fromException incoming notes).visits = notes.visits := by
  by_cases plain : block.handlers = []
  · rw [merge_of_handlers_eq_nil plain]
  · rw [merge_of_handlers_ne_nil plain]

/-- The entry of a block has taken account of incoming slots. -/
def Takes
    (hierarchy : Hierarchy)
    (block : Block)
    (fromException : Bool)
    (incoming : SlotState)
    (notes : Notes) : Prop :=
  ∃ input, notes.inputState = some input ∧ hierarchy.SlotsLe incoming.locals input.locals ∧
    (block.handlers = [] → hierarchy.StackLe incoming.stack input.stack) ∧
    (block.handlers ≠ [] → input.stack = .ofList [notes.caught] ∧
      (fromException = true → hierarchy.SlotLe incoming.peek notes.caught))

/-- A merge of slots that have been taken account of changes nothing. -/
theorem Takes.merge_eq_self (takes : Takes hierarchy block fromException incoming notes) :
    block.merge hierarchy widen fromException incoming notes = notes := by
  obtain ⟨input, input_eq, locals_le, plainly, handling⟩ := takes
  have locals_eq : mergedLocals hierarchy widen incoming notes = input.locals := by
    rw [mergedLocals, input_eq]
    exact Hierarchy.mergeSlots_eq_self_iff.mpr locals_le
  by_cases plain : block.handlers = []
  · have stack_eq : mergedStack hierarchy widen incoming notes = input.stack := by
      rw [mergedStack, input_eq]
      exact Hierarchy.mergeStack_eq_self_iff.mpr (plainly plain)
    rw [merge_of_handlers_eq_nil plain, locals_eq, stack_eq]
    exact congrArg (fun state => { notes with inputState := state }) input_eq.symm
  · obtain ⟨stack_eq, caught_le⟩ := handling plain
    have caught_eq : mergedCaught hierarchy widen fromException incoming notes = notes.caught := by
      unfold mergedCaught
      split
      next thrown => exact if_pos (caught_le thrown)
      next => rfl
    rw [merge_of_handlers_ne_nil plain, locals_eq, caught_eq, ← stack_eq]
    exact congrArg (fun state => { notes with inputState := state }) input_eq.symm

variable (orderly : hierarchy.Orderly)

include orderly

theorem slotsLe_mergedLocals :
    hierarchy.SlotsLe incoming.locals (mergedLocals hierarchy widen incoming notes) ∧
      ∀ input, notes.inputState = some input →
        hierarchy.SlotsLe input.locals (mergedLocals hierarchy widen incoming notes) := by
  unfold mergedLocals
  cases notes.inputState with
  | none => exact ⟨Hierarchy.SlotsLe.refl _, fun _ absent => by simp at absent⟩
  | some input =>
      obtain ⟨below, otherBelow⟩ := orderly.slotsLe_mergeSlots widen input.locals incoming.locals
      exact ⟨otherBelow, fun _ same => Option.some.inj same ▸ below⟩

theorem stackLe_mergedStack :
    hierarchy.StackLe incoming.stack (mergedStack hierarchy widen incoming notes) ∧
      ∀ input, notes.inputState = some input →
        hierarchy.StackLe input.stack (mergedStack hierarchy widen incoming notes) := by
  unfold mergedStack
  cases notes.inputState with
  | none => exact ⟨Hierarchy.SlotsLe.refl _, fun _ absent => by simp at absent⟩
  | some input =>
      obtain ⟨below, otherBelow⟩ := orderly.stackLe_mergeStack widen input.stack incoming.stack
      exact ⟨otherBelow, fun _ same => Option.some.inj same ▸ below⟩

theorem slotLe_mergedCaught :
    hierarchy.SlotLe notes.caught
        (mergedCaught hierarchy widen fromException incoming notes) ∧
      (fromException = true → hierarchy.SlotLe incoming.peek
        (mergedCaught hierarchy widen fromException incoming notes)) := by
  unfold mergedCaught
  split
  next =>
      split
      next same => exact ⟨Hierarchy.SlotLe.refl _, fun _ => same⟩
      next =>
          split
          · exact ⟨Hierarchy.slotLe_top _, fun _ => Hierarchy.slotLe_top _⟩
          · obtain ⟨below, otherBelow⟩ :=
              orderly.orderlyClasses.slotLe_join notes.caught incoming.peek
            exact ⟨below, fun _ => otherBelow⟩
  next unthrown => exact ⟨Hierarchy.SlotLe.refl _, fun thrown => absurd thrown unthrown⟩

/-- A merge takes account of what comes in. -/
theorem takes_merge :
    Takes hierarchy block fromException incoming
      (block.merge hierarchy widen fromException incoming notes) := by
  by_cases plain : block.handlers = []
  · rw [merge_of_handlers_eq_nil plain]
    exact ⟨_, rfl, (slotsLe_mergedLocals orderly).1, fun _ => (stackLe_mergedStack orderly).1,
      fun handles => absurd plain handles⟩
  · rw [merge_of_handlers_ne_nil plain]
    exact ⟨_, rfl, (slotsLe_mergedLocals orderly).1, fun none_ => absurd none_ plain,
      fun _ => ⟨rfl, (slotLe_mergedCaught orderly).2⟩⟩

/-- What has been taken account of stays so in a merge with something else. -/
theorem Takes.merge
    {otherException : Bool}
    {other : SlotState}
    (takes : Takes hierarchy block fromException incoming notes) :
    Takes hierarchy block fromException incoming
      (block.merge hierarchy widen otherException other notes) := by
  obtain ⟨input, input_eq, locals_le, plainly, handling⟩ := takes
  by_cases plain : block.handlers = []
  · rw [merge_of_handlers_eq_nil plain]
    refine ⟨_, rfl, ?_, fun _ => ?_, fun handles => absurd plain handles⟩
    · exact orderly.slotsLe_trans locals_le ((slotsLe_mergedLocals orderly).2 input input_eq)
    · exact orderly.stackLe_trans (plainly plain) ((stackLe_mergedStack orderly).2 input input_eq)
  · rw [merge_of_handlers_ne_nil plain]
    refine ⟨_, rfl, ?_, fun none_ => absurd none_ plain, fun _ => ⟨rfl, fun thrown => ?_⟩⟩
    · exact orderly.slotsLe_trans locals_le ((slotsLe_mergedLocals orderly).2 input input_eq)
    · exact orderly.slotLe_trans ((handling plain).2 thrown) (slotLe_mergedCaught orderly).1

end Block
end StackMaps
