import StackMaps.Proofs.Slots.Origins

/-!
# Renaming origins

Instructions do not look at the origins of uninitialized objects, except to tell
them apart and to look up the class of an object whose constructor has run. So they
commute with every change of origins that keeps those of a state apart.
-/

namespace StackMaps

/-- A slot with another origin for its uninitialized object. -/
def renameSlot (onOrigin : Nat → Nat) (slot : Slot) : Slot :=
  slot.map (VerificationType.map id onOrigin)

section Slots

variable (onOrigin : Nat → Nat)

@[simp] theorem renameSlot_none : renameSlot onOrigin none = none := rfl

@[simp] theorem renameSlot_some (type : SlotType) :
    renameSlot onOrigin (some type) = some (type.map id onOrigin) := rfl

theorem VerificationType.map_of_isPlain
    {type : SlotType}
    (plain : type.isPlain = true) :
    type.map id onOrigin = type := by
  cases type with
  | uninitialized origin => cases plain
  | _ => rfl

@[simp] theorem VerificationType.isWide_map (type : SlotType) :
    (type.map id onOrigin).isWide = type.isWide := by
  cases type <;> rfl

@[simp] theorem isWideSlot_renameSlot (slot : Slot) :
    SlotState.isWideSlot (renameSlot onOrigin slot) = SlotState.isWideSlot slot := by
  cases slot with
  | none => rfl
  | some type => exact type.isWide_map onOrigin

theorem renameSlot_eq_uninitialized_iff {slot : Slot} {origin : Nat} :
    renameSlot onOrigin slot = some (.uninitialized origin) ↔
      ∃ other, slot = some (.uninitialized other) ∧ onOrigin other = origin := by
  cases slot with
  | none => simp
  | some type => cases type <;> simp [VerificationType.map]

theorem elementOf_renameSlot (slot : Slot) :
    SlotState.elementOf (renameSlot onOrigin slot) =
      renameSlot onOrigin (SlotState.elementOf slot) := by
  cases slot with
  | none => rfl
  | some type =>
      cases type with
      | object array =>
          simp only [renameSlot_some, VerificationType.map, id, SlotState.elementOf]
          split <;> rfl
      | _ => rfl

end Slots

namespace SlotState

/-- A state with other origins for its uninitialized objects. -/
def rename (onOrigin : Nat → Nat) (state : SlotState) : SlotState :=
  ⟨state.locals.map (renameSlot onOrigin), state.stack.map (renameSlot onOrigin)⟩

/-- A change of origins keeps those in a state apart, and the allocations that are looked
up afterwards agree with those before. -/
structure Renames
    (onOrigin : Nat → Nat)
    (context newContext : MethodContext)
    (state : SlotState) : Prop where
  thisClass_eq : newContext.thisClass = context.thisClass
  injective : ∀ origin other, state.Mentions origin → state.Mentions other →
    onOrigin origin = onOrigin other → origin = other
  allocatedAt?_eq : ∀ origin, state.Mentions origin →
    newContext.allocatedAt? (onOrigin origin) = context.allocatedAt? origin

variable {onOrigin : Nat → Nat} {state : SlotState}

@[simp] theorem locals_rename :
    (state.rename onOrigin).locals = state.locals.map (renameSlot onOrigin) := rfl

@[simp] theorem slots_stack_rename :
    (state.rename onOrigin).stack.slots = state.stack.slots.map (renameSlot onOrigin) := rfl

@[simp] theorem depth_stack_rename :
    (state.rename onOrigin).stack.depth = state.stack.depth := rfl

theorem rename_of_not_mentions (absent : ∀ origin, ¬state.Mentions origin) :
    state.rename onOrigin = state := by
  have renamed : ∀ slot, slot ∈ state.locals ∨ slot ∈ state.stack.slots →
      renameSlot onOrigin slot = slot := by
    intro slot present
    cases slot with
    | none => rfl
    | some type =>
        cases type with
        | uninitialized origin => exact absurd present (absent origin)
        | _ => rfl
  refine ext_slots ?_ ?_
  · exact (List.map_congr_left fun slot present => renamed slot (Or.inl present)).trans
      (List.map_id _)
  · exact (List.map_congr_left fun slot present => renamed slot (Or.inr present)).trans
      (List.map_id _)

/-- Only the origins that are mentioned matter. -/
theorem rename_congr
    {other : Nat → Nat}
    (same : ∀ origin, state.Mentions origin → onOrigin origin = other origin) :
    state.rename onOrigin = state.rename other := by
  have renamed : ∀ slot, slot ∈ state.locals ∨ slot ∈ state.stack.slots →
      renameSlot onOrigin slot = renameSlot other slot := by
    intro slot present
    cases slot with
    | none => rfl
    | some type =>
        cases type with
        | uninitialized origin => simp [VerificationType.map, same origin present]
        | _ => rfl
  exact ext_slots (List.map_congr_left fun slot present => renamed slot (Or.inl present))
    (List.map_congr_left fun slot present => renamed slot (Or.inr present))

theorem mentions_rename_iff {origin : Nat} :
    (state.rename onOrigin).Mentions origin ↔
      ∃ other, state.Mentions other ∧ onOrigin other = origin := by
  simp only [Mentions, locals_rename, slots_stack_rename, List.mem_map,
    renameSlot_eq_uninitialized_iff]
  constructor
  · rintro (⟨_, present, other, rfl, same⟩ | ⟨_, present, other, rfl, same⟩)
    · exact ⟨other, Or.inl present, same⟩
    · exact ⟨other, Or.inr present, same⟩
  · rintro ⟨other, present | present, same⟩
    · exact Or.inl ⟨_, present, other, rfl, same⟩
    · exact Or.inr ⟨_, present, other, rfl, same⟩

/-! ## Operations on the stack -/

theorem rename_pushSlot (slot : Slot) :
    (state.pushSlot slot).rename onOrigin =
      (state.rename onOrigin).pushSlot (renameSlot onOrigin slot) :=
  ext_slots rfl rfl

theorem rename_push (type : SlotType) :
    (state.push type).rename onOrigin = (state.rename onOrigin).push (type.map id onOrigin) := by
  unfold push
  rw [VerificationType.isWide_map]
  split
  · rw [rename_pushSlot, rename_pushSlot]
    rfl
  · exact rename_pushSlot _

theorem rename_push_of_isPlain (type : SlotType) (plain : type.isPlain = true) :
    (state.push type).rename onOrigin = (state.rename onOrigin).push type := by
  rw [rename_push, VerificationType.map_of_isPlain onOrigin plain]

theorem rename_pushField (type : FieldType) :
    (state.pushField type).rename onOrigin = (state.rename onOrigin).pushField type :=
  rename_push_of_isPlain _ (VerificationType.isPlain_ofFieldType type)

theorem rename_pushResult (descriptor : MethodDescriptor) :
    (state.pushResult descriptor).rename onOrigin =
      (state.rename onOrigin).pushResult descriptor := by
  unfold pushResult
  split
  · exact rename_pushField _
  · rfl

theorem rename_drop (count : Nat) :
    (state.drop count).rename onOrigin = (state.rename onOrigin).drop count :=
  ext_slots rfl (List.map_drop)

theorem rename_enterHandler :
    state.enterHandler.rename onOrigin = (state.rename onOrigin).enterHandler := by
  refine ext_slots rfl ?_
  simp only [enterHandler, slots_stack_rename, Stack.slots_ofList, List.map_cons, List.map_nil,
    List.getLastD_eq_getLast?, List.getLast?_map]
  cases state.stack.slots.getLast? <;> rfl

theorem slotAt_rename (depth : Nat) :
    (state.rename onOrigin).slotAt depth = renameSlot onOrigin (state.slotAt depth) := by
  unfold slotAt
  rw [slots_stack_rename, List.getElem?_map]
  cases state.stack.slots[depth]? <;> rfl

theorem peek_rename : (state.rename onOrigin).peek = renameSlot onOrigin state.peek := by
  unfold peek
  rw [slots_stack_rename]
  cases state.stack.slots <;> rfl

/-! ## Local variables -/

theorem localSlot_rename (index : Nat) :
    (state.rename onOrigin).localSlot index = renameSlot onOrigin (state.localSlot index) := by
  unfold localSlot
  rw [locals_rename, List.getElem?_map]
  cases state.locals[index]? <;> rfl

theorem extendTo_map (locals : List Slot) (index : Nat) :
    extendTo (locals.map (renameSlot onOrigin)) index =
      (extendTo locals index).map (renameSlot onOrigin) := by
  unfold extendTo
  rw [List.length_map]
  split
  · rfl
  · rw [List.map_append, List.map_replicate, renameSlot_none]

theorem breakWideBefore_map (locals : List Slot) (index : Nat) :
    breakWideBefore (locals.map (renameSlot onOrigin)) index =
      (breakWideBefore locals index).map (renameSlot onOrigin) := by
  refine List.ext_getElem? fun place => ?_
  simp only [getElem?_breakWideBefore, List.getElem?_map, Option.map_map]
  congr 1
  funext slot
  simp only [Function.comp_apply, isWideSlot_renameSlot]
  split <;> rfl

theorem rename_store (index : Nat) (slot : Slot) :
    (state.store index slot).rename onOrigin =
      (state.rename onOrigin).store index (renameSlot onOrigin slot) := by
  refine ext_slots ?_ rfl
  simp only [store, locals_rename, isWideSlot_renameSlot, extendTo_map, breakWideBefore_map]
  split
  · rw [List.map_set, List.map_set]
    rfl
  · rw [List.map_set]

theorem rename_access (access : LocalAccess) :
    (state.access access).rename onOrigin = (state.rename onOrigin).access access := by
  obtain ⟨index, kind, isStore⟩ := access
  cases isStore with
  | true =>
      simp only [SlotState.access, if_true, slotAt_rename, rename_store, rename_drop]
  | false =>
      cases kind with
      | reference =>
          simp only [SlotState.access, Bool.false_eq_true, if_false, rename_pushSlot,
            localSlot_rename]
          refine congrArg (pushSlot · _) ?_
          exact ext_slots (extendTo_map _ _).symm rfl
      | int => exact rename_push_of_isPlain .integer rfl
      | float => exact rename_push_of_isPlain .float rfl
      | long => exact rename_push_of_isPlain .long rfl
      | double => exact rename_push_of_isPlain .double rfl

theorem mentions_enterHandler {origin : Nat} (mentions : state.enterHandler.Mentions origin) :
    state.Mentions origin := by
  refine Classical.byContradiction fun absent => absurd mentions ?_
  exact not_mentions_iff.mpr ((not_mentions_iff.mp absent).enterHandler (lenient_ne origin).supply)

/-! ## Instructions -/

theorem rename_act {action : SimpleAction} (basic : action.isBasic = true) :
    (state.act action).rename onOrigin = (state.rename onOrigin).act action := by
  cases action with
  | keep => rfl
  | discard pops => exact rename_drop pops
  | replace pops result =>
      rw [act, act, rename_push_of_isPlain result (VerificationType.isPlain_of_isBasic basic),
        rename_drop]
  | rearrange pops depths =>
      refine ext_slots rfl ?_
      simp [act, slotAt_rename, List.map_drop, Function.comp_def]
  | access access => exact rename_access access
  | element => rw [act, act, rename_pushSlot, rename_drop, slotAt_rename, elementOf_renameSlot]

/-- A replacement of a type that no other one is renamed to can be done before or after. -/
theorem rename_replaceAll
    {old new : SlotType}
    (apart : ∀ slot, slot ∈ state.locals ∨ slot ∈ state.stack.slots →
      renameSlot onOrigin slot = some (old.map id onOrigin) → slot = some old) :
    (state.replaceAll old new).rename onOrigin =
      (state.rename onOrigin).replaceAll (old.map id onOrigin) (new.map id onOrigin) := by
  have replaced : ∀ slot, slot ∈ state.locals ∨ slot ∈ state.stack.slots →
      renameSlot onOrigin (if slot = some old then some new else slot) =
        if renameSlot onOrigin slot = some (old.map id onOrigin) then some (new.map id onOrigin)
        else renameSlot onOrigin slot := by
    intro slot present
    by_cases same : slot = some old
    · subst same
      simp
    · rw [if_neg same, if_neg fun renamed => same (apart slot present renamed)]
  refine ext_slots ?_ ?_
  · simp only [replaceAll, locals_rename, List.map_map]
    exact List.map_congr_left fun slot present => replaced slot (Or.inl present)
  · simp only [replaceAll, slots_stack_rename, Stack.slots_map, List.map_map]
    exact List.map_congr_left fun slot present => replaced slot (Or.inr present)

variable {context newContext : MethodContext}

theorem mentions_drop {count origin : Nat} (mentions : (state.drop count).Mentions origin) :
    state.Mentions origin := by
  rcases mentions with inLocals | onStack
  · exact Or.inl inLocals
  · exact Or.inr (List.mem_of_mem_drop onStack)

theorem mentions_of_peek {origin : Nat} (top : state.peek = some (.uninitialized origin)) :
    state.Mentions origin := by
  unfold peek at top
  cases slots_eq : state.stack.slots with
  | nil =>
      rw [slots_eq] at top
      cases top
  | cons slot rest =>
      rw [slots_eq] at top
      refine Or.inr ?_
      rw [slots_eq, ← top]
      exact List.mem_cons_self

/-- The end of a constructor finds the same class and the same copies. -/
theorem Renames.rename_completeReceiver
    (renames : state.Renames onOrigin context newContext)
    (owner : BinaryName)
    (count : Nat) :
    ((state.drop count).completeReceiver context state.peek owner).rename onOrigin =
      ((state.rename onOrigin).drop count).completeReceiver newContext
        (renameSlot onOrigin state.peek) owner := by
  rw [← rename_drop]
  cases top : state.peek with
  | none => rfl
  | some receiver =>
      cases receiver with
      | uninitialized origin =>
          have present := mentions_of_peek top
          simp only [completeReceiver, renameSlot_some, VerificationType.map]
          rw [renames.allocatedAt?_eq origin present]
          refine rename_replaceAll fun slot held renamed => ?_
          obtain ⟨other, rfl, same⟩ := (renameSlot_eq_uninitialized_iff onOrigin).mp renamed
          rw [renames.injective other origin (mentions_drop held) present same]
      | uninitializedThis =>
          simp only [completeReceiver, renameSlot_some, VerificationType.map]
          rw [renames.thisClass_eq]
          refine rename_replaceAll fun slot _ renamed => ?_
          cases slot with
          | none => cases renamed
          | some type => cases type <;> simp_all [VerificationType.map]
      | _ => rfl

/-- An instruction commutes with a change of origins, if an allocation has its new position
as its origin afterwards. -/
theorem Renames.rename_interpret
    (renames : state.Renames onOrigin context newContext)
    {position newPosition : Nat}
    {instruction : Instruction}
    (fresh : instruction.isNew = true → onOrigin position = newPosition) :
    (state.interpret context position instruction).rename onOrigin =
      (state.rename onOrigin).interpret newContext newPosition instruction := by
  cases instruction with
  | mark label => rfl
  | simple opcode => exact rename_act opcode.isBasic_simpleAction
  | var opcode index =>
      simp only [interpret]
      split
      · exact rename_access _
      · rfl
  | type opcode operand =>
      simp only [interpret]
      split
      · rw [rename_push, VerificationType.map, fresh rfl]
      · rw [rename_push_of_isPlain _ rfl, rename_drop]
      · rw [rename_push_of_isPlain _ rfl, rename_drop]
      · rfl
  | field opcode owner name declared =>
      simp only [interpret]
      split
      · exact rename_pushField declared
      · rw [rename_pushField, rename_drop]
      · exact rename_drop _
      · exact rename_drop _
  | method opcode owner name descriptor interface =>
      have called : (state.drop (descriptor.parameterLength false)).Renames onOrigin context
          newContext :=
        ⟨renames.thisClass_eq,
          fun origin other held otherHeld =>
            renames.injective origin other (mentions_drop held) (mentions_drop otherHeld),
          fun origin held => renames.allocatedAt?_eq origin (mentions_drop held)⟩
      simp only [interpret, rename_pushResult]
      congr 1
      split
      · exact rename_drop _
      · split
        · rw [called.rename_completeReceiver owner 1, rename_drop, ← peek_rename, rename_drop]
        · rw [rename_drop, rename_drop]
      · rw [rename_drop, rename_drop]
  | increment index value => rfl
  | push constant => exact rename_push_of_isPlain _ (Constant.isPlain_slotType constant)
  | branch opcode target =>
      simp only [interpret]
      split
      · rw [rename_pushSlot, rename_drop]
        rfl
      · exact rename_drop _
  | lookupSwitch fallback targets => exact rename_drop 1
  | tableSwitch fallback low targets => exact rename_drop 1
  | multiNewArray operand dimensions =>
      rw [interpret, interpret, rename_push_of_isPlain _ rfl, rename_drop]
  | newArray element => rw [interpret, interpret, rename_push_of_isPlain _ rfl, rename_drop]
  | invokeDynamic name descriptor bootstrap arguments =>
      rw [interpret, interpret, rename_pushResult, rename_drop]

end SlotState

end StackMaps
