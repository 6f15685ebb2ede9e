import StackMaps.Method
import StackMaps.Proofs.Slots.Extent
import StackMaps.Proofs.Slots.Order

/-!
# Wide values in locals

A wide value in the locals has `top` behind it. A store keeps this by breaking the
value whose second half it overwrites, and a merge keeps it because a wide type can
only come from slots that had `top` behind them already.
-/

namespace StackMaps

/-- Every wide value has `top` behind it. -/
def Paired {Operand Origin : Type} (slots : List (Option (VerificationType Operand Origin))) :
    Prop :=
  ∀ index type, slots[index]? = some (some type) → type.isWide = true →
    slots[index + 1]? = some (some .top)

section Lists

variable {Operand Origin : Type}

theorem VerificationType.not_isWide_top :
    ¬(VerificationType.top : VerificationType Operand Origin).isWide = true :=
  Bool.false_ne_true

theorem paired_nil : Paired ([] : List (Option (VerificationType Operand Origin))) :=
  fun _ _ found => by simp at found

/-- The first value has `top` behind it if it is wide, and so have the others. -/
theorem paired_cons_iff
    {slot : Option (VerificationType Operand Origin)}
    {rest : List (Option (VerificationType Operand Origin))} :
    Paired (slot :: rest) ↔
      ((slot.getD .top).isWide = true → rest[0]? = some (some .top)) ∧ Paired rest := by
  constructor
  · intro paired
    refine ⟨fun wide => ?_, fun place type found wide => paired (place + 1) type found wide⟩
    cases slot with
    | none => exact absurd wide VerificationType.not_isWide_top
    | some type => exact paired 0 type rfl wide
  · rintro ⟨first, paired⟩ place type found wide
    cases place with
    | zero =>
        rw [List.getElem?_cons_zero, Option.some.injEq] at found
        exact first (found ▸ wide)
    | succ place => exact paired place type found wide

theorem Paired.append_top
    {slots : List (Option (VerificationType Operand Origin))}
    (paired : Paired slots)
    (count : Nat) :
    Paired (slots ++ List.replicate count (some .top)) := by
  intro place type found wide
  by_cases inside : place < slots.length
  · rw [List.getElem?_append_left inside] at found
    have behind := paired place type found wide
    rw [List.getElem?_append_left (List.getElem?_eq_some_iff.mp behind).1, behind]
  · rw [List.getElem?_append_right (Nat.le_of_not_lt inside), List.getElem?_replicate] at found
    split at found
    · cases found
      exact absurd wide VerificationType.not_isWide_top
    · cases found

/-- A change of slots keeps wide values together if it leaves `top` alone and makes nothing
else wide. -/
theorem Paired.map
    {NewOperand NewOrigin : Type}
    {slots : List (Option (VerificationType Operand Origin))}
    (paired : Paired slots)
    {change : Option (VerificationType Operand Origin) →
      Option (VerificationType NewOperand NewOrigin)}
    (top : change (some .top) = some .top)
    (wide : ∀ slot type, change slot = some type → type.isWide = true →
      ∃ before, slot = some before ∧ before.isWide = true) :
    Paired (slots.map change) := by
  intro place type found isWide
  rw [List.getElem?_map, Option.map_eq_some_iff] at found
  obtain ⟨slot, slot_eq, changed⟩ := found
  obtain ⟨before, rfl, wideBefore⟩ := wide slot type changed isWide
  rw [List.getElem?_map, paired place before slot_eq wideBefore, Option.map_some, top]

end Lists

/-! ## Merges -/

/-- A merge of paired slots is paired. -/
theorem Paired.mergeSlots
    {hierarchy : Hierarchy}
    {existing incoming : List Slot}
    (paired : Paired existing)
    (incomingPaired : Paired incoming)
    (widen : Bool) :
    Paired (hierarchy.mergeSlots widen existing incoming) := by
  intro index type found wide
  have notTop : type ≠ .top := by
    rintro rfl
    exact VerificationType.not_isWide_top wide
  have notObject : ∀ operand, type ≠ .object operand := by
    rintro operand rfl
    simp [VerificationType.isWide] at wide
  have behindExisting : existing[index]? = some (some type) →
      (hierarchy.mergeSlots widen existing incoming)[index + 1]? = some (some .top) := by
    intro existing_eq
    rw [Hierarchy.getElem?_mergeSlots, paired index type existing_eq wide]
    cases incoming[index + 1]? with
    | none => rfl
    | some slot => exact congrArg some (Hierarchy.top_mergeSlot widen slot)
  rw [Hierarchy.getElem?_mergeSlots] at found
  cases incoming_eq : incoming[index]? with
  | none =>
      rw [incoming_eq] at found
      exact behindExisting found
  | some slot =>
      rw [incoming_eq] at found
      rcases Hierarchy.eq_of_mergeSlot_eq notTop notObject (Option.some.inj found) with
        ⟨same, _⟩ | ⟨_, same⟩
      · exact behindExisting (Option.join_eq_some_iff.mp same)
      · have behind := incomingPaired index type (incoming_eq.trans (congrArg some same)) wide
        rw [Hierarchy.getElem?_mergeSlots, behind]
        exact congrArg some (Hierarchy.mergeSlot_top widen _)

/-! ## Local variables -/

section Variables

open SlotState

theorem getElem?_extendTo (locals : List Slot) (index place : Nat) :
    (extendTo locals index)[place]? =
      if place < locals.length then locals[place]?
      else if place ≤ index then some none else none := by
  unfold extendTo
  split
  next inside =>
      split
      next => rfl
      next outside =>
          rw [if_neg (by omega), List.getElem?_eq_none (Nat.le_of_not_lt outside)]
  next =>
      split
      next inside => rw [List.getElem?_append_left inside]
      next outside =>
          rw [List.getElem?_append_right (Nat.le_of_not_lt outside), List.getElem?_replicate]
          split
          next => rw [if_pos (by omega)]
          next => rw [if_neg (by omega)]

/-- New local variables are unknown. -/
theorem eq_of_getElem?_extendTo
    {locals : List Slot}
    {index place : Nat}
    {type : SlotType}
    (found : (extendTo locals index)[place]? = some (some type)) :
    locals[place]? = some (some type) := by
  rw [getElem?_extendTo] at found
  split at found
  · exact found
  · split at found <;> cases found

theorem Paired.extendTo {locals : List Slot} (paired : Paired locals) (index : Nat) :
    Paired (SlotState.extendTo locals index) := by
  intro place type found wide
  have behind := paired place type (eq_of_getElem?_extendTo found) wide
  rw [getElem?_extendTo, if_pos (List.getElem?_eq_some_iff.mp behind).1, behind]

/-- Only a wide value in front of the index is lost. -/
theorem getElem?_breakWideBefore (locals : List Slot) (index place : Nat) :
    (breakWideBefore locals index)[place]? =
      (locals[place]?).map fun slot =>
        if place + 1 = index ∧ isWideSlot slot = true then some .top else slot := by
  cases index with
  | zero => simp [breakWideBefore]
  | succ before =>
      rw [breakWideBefore, List.getElem?_modify]
      by_cases same : before = place
      · subst same
        simp
      · have other : ¬place = before := fun equal => same equal.symm
        simp [same, other]

/-- What lies at an index after a store. -/
theorem getElem?_store (state : SlotState) (index place : Nat) (slot : Slot) :
    (state.store index slot).locals[place]? =
      if place = index then some slot
      else if place = index + 1 ∧ isWideSlot slot = true then some (some .top)
      else
        (breakWideBefore
          (extendTo state.locals (if isWideSlot slot then index + 1 else index))
          index)[place]? := by
  have long : ∀ last, index ≤ last →
      index < (breakWideBefore (extendTo state.locals last) index).length ∧
        last < (breakWideBefore (extendTo state.locals last) index).length := by
    intro last le
    rw [length_breakWideBefore, length_extendTo]
    omega
  unfold store
  dsimp only
  by_cases here : place = index
  · subst here
    split
    next => simp [(long _ (Nat.le_succ place)).1]
    next => simp [(long _ (Nat.le_refl place)).1]
  · have elsewhere : ¬index = place := fun same => here same.symm
    split
    next wide =>
        by_cases behind : place = index + 1
        · subst behind
          simp [(long _ (Nat.le_succ index)).2, wide]
        · have other : ¬index + 1 = place := fun same => behind same.symm
          simp [elsewhere, behind, other]
    next narrow => simp [elsewhere, narrow]

/-- A store breaks the wide value whose second half it overwrites, and puts `top` behind a
wide value of its own. -/
theorem Paired.store
    {state : SlotState}
    (paired : Paired state.locals)
    (index : Nat)
    (slot : Slot) :
    Paired (state.store index slot).locals := by
  intro place type found wide
  rw [getElem?_store] at found
  split at found
  next here =>
      subst here
      have isWide : isWideSlot slot = true := by
        rw [Option.some.inj found]
        exact wide
      rw [getElem?_store, if_neg (Nat.succ_ne_self place), if_pos ⟨rfl, isWide⟩]
  next elsewhere =>
      split at found
      next =>
          cases found
          exact absurd wide VerificationType.not_isWide_top
      next =>
          rw [getElem?_breakWideBefore, Option.map_eq_some_iff] at found
          obtain ⟨before, before_eq, kept⟩ := found
          split at kept
          next =>
              cases kept
              exact absurd wide VerificationType.not_isWide_top
          next unbroken =>
              subst kept
              have other : place + 1 ≠ index := fun next_ => unbroken ⟨next_, wide⟩
              have behind := paired.extendTo _ place type before_eq wide
              rw [getElem?_store, if_neg other]
              split
              · rfl
              · rw [getElem?_breakWideBefore, behind]
                simp [isWideSlot, VerificationType.isWide]

theorem Paired.access
    {state : SlotState}
    (paired : Paired state.locals)
    (access : LocalAccess) :
    Paired (state.access access).locals := by
  obtain ⟨index, kind, isStore⟩ := access
  cases isStore with
  | true =>
      have dropped : Paired (state.drop kind.width).locals := paired
      exact dropped.store _ _
  | false =>
      cases kind with
      | reference => exact paired.extendTo index
      | _ => simpa [SlotState.access] using paired

theorem Paired.replaceAll
    {state : SlotState}
    (paired : Paired state.locals)
    {old : SlotType}
    (notTop : old ≠ .top)
    (operand : RefType) :
    Paired (state.replaceAll old (.object operand)).locals := by
  refine paired.map ?_ fun slot type changed wide => ?_
  · rw [if_neg fun same => notTop (Option.some.inj same).symm]
  · split at changed
    · cases changed
      simp [VerificationType.isWide] at wide
    · exact ⟨type, changed, wide⟩

end Variables

/-! ## Instructions -/

namespace SlotState

variable (state : SlotState) (context : MethodContext) (position : Nat)
variable (instruction : Instruction)

/-- What holds of the locals in front of an instruction holds behind it, if accesses to
variables and the end of a constructor keep it. -/
theorem locals_interpret_induction
    (Holds : List Slot → Prop)
    (before : Holds state.locals)
    (accessed : ∀ access, Holds (state.access access).locals)
    (replaced : ∀ old operand, old ≠ .top → Holds (state.replaceAll old (.object operand)).locals) :
    Holds (state.interpret context position instruction).locals := by
  cases instruction with
  | simple opcode =>
      rw [interpret]
      cases opcode.simpleAction with
      | access access => exact accessed access
      | replace pops result =>
          rw [act, locals_push]
          exact before
      | _ => exact before
  | var opcode index =>
      simp only [interpret]
      split
      · exact accessed _
      · exact before
  | type opcode operand =>
      simp only [interpret]
      split <;> simpa using before
  | field opcode owner name declared =>
      simp only [interpret]
      split <;> simpa using before
  | method opcode owner name descriptor interface =>
      simp only [interpret, locals_pushResult]
      split
      · exact before
      · split
        · unfold completeReceiver
          split
          · exact replaced _ _ (by simp)
          · exact replaced _ _ (by simp)
          · exact before
        · exact before
      · exact before
  | branch opcode target =>
      simp only [interpret]
      split <;> exact before
  | push constant =>
      rw [interpret, locals_push]
      exact before
  | multiNewArray operand dimensions =>
      rw [interpret, locals_push]
      exact before
  | newArray element =>
      rw [interpret, locals_push]
      exact before
  | invokeDynamic name descriptor bootstrap arguments =>
      rw [interpret, locals_pushResult]
      exact before
  | _ => exact before

end SlotState

/-- No instruction splits a wide value in the locals. -/
theorem Paired.interpret
    {state : SlotState}
    (paired : Paired state.locals)
    (context : MethodContext)
    (position : Nat)
    (instruction : Instruction) :
    Paired (state.interpret context position instruction).locals :=
  state.locals_interpret_induction context position instruction Paired paired paired.access
    fun _ operand notTop => paired.replaceAll notTop operand

/-! ## Parameters -/

theorem VerificationType.isWide_ofFieldType (type : FieldType) :
    (VerificationType.ofFieldType type : SlotType).isWide = type.isWide := by
  cases type with
  | base type => cases type <;> rfl
  | ref type => rfl

/-- The slots of some types are paired if `top` stands for those that follow a wide one. -/
theorem paired_map_slots
    {start : Option FieldType → Slot}
    (start_some : ∀ type, start (some type) = some (.ofFieldType type))
    (start_none : start none = some .top)
    (types : List FieldType) :
    Paired ((types.flatMap fun type =>
      if type.isWide then [some type, none] else [some type]).map start) := by
  induction types with
  | nil => exact paired_nil
  | cons type rest hypothesis =>
      rw [List.flatMap_cons, List.map_append]
      split
      next =>
          rw [List.map_cons, List.map_cons, start_some, start_none]
          exact paired_cons_iff.mpr ⟨fun _ => rfl,
            paired_cons_iff.mpr ⟨fun wide => absurd wide VerificationType.not_isWide_top,
              hypothesis⟩⟩
      next narrow =>
          rw [List.map_cons, start_some]
          refine paired_cons_iff.mpr ⟨fun wide => ?_, hypothesis⟩
          rw [Option.getD_some, VerificationType.isWide_ofFieldType] at wide
          exact absurd wide narrow

/-- Wide parameters come with `top` behind them. -/
theorem Method.paired_typedStartLocals (method : Method) (thisClass : BinaryName) :
    Paired (method.typedStartLocals thisClass) := by
  unfold typedStartLocals
  split
  · refine paired_cons_iff.mpr ⟨fun wide => ?_, paired_map_slots (fun _ => rfl) rfl _⟩
    unfold receiver at wide
    split at wide <;> simp [VerificationType.isWide] at wide
  · exact paired_map_slots (fun _ => rfl) rfl _

end StackMaps
