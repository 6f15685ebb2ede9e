import StackMaps.Proofs.Slots.Pairing

/-!
# Where slots come from

What an instruction leaves in the slots was there before, or is of a type that it
makes up itself. Only an allocation makes up an uninitialized object, with its own
position as the origin, and a merge makes up nothing but `top` and common supertypes.
-/

namespace StackMaps

/-- Is this another type than that of an uninitialized object with an origin? -/
def VerificationType.isPlain {Operand Origin : Type} : VerificationType Operand Origin → Bool
  | .uninitialized _ => false
  | _ => true

theorem VerificationType.isPlain_ofFieldType (type : FieldType) :
    (VerificationType.ofFieldType type : SlotType).isPlain = true := by
  cases type with
  | base type => cases type <;> rfl
  | ref type => rfl

theorem Constant.isPlain_slotType (constant : Constant) :
    constant.slotType.isPlain = true := by
  cases constant with
  | dynamic name type => exact VerificationType.isPlain_ofFieldType type
  | _ => rfl

/-- Is this a type without a class and without an origin? -/
def VerificationType.isBasic {Operand Origin : Type} : VerificationType Operand Origin → Bool
  | .object _ | .uninitialized _ => false
  | _ => true

theorem VerificationType.isPlain_of_isBasic
    {Operand Origin : Type}
    {type : VerificationType Operand Origin}
    (basic : type.isBasic = true) :
    type.isPlain = true := by
  cases type with
  | uninitialized origin => cases basic
  | _ => rfl

/-- Is the result of the action, if it has one, of a basic type? -/
def SimpleAction.isBasic : SimpleAction → Bool
  | .replace _ result => result.isBasic
  | _ => true

theorem Opcode.isBasic_simpleAction (opcode : Opcode) : opcode.simpleAction.isBasic = true := by
  cases opcode with
  | unassigned index => rw [simpleAction_unassigned]; rfl
  | _ => rfl

/-! ## What makes up types -/

/-- A property of the types that merges make up. -/
structure Hierarchy.Merges (hierarchy : Hierarchy) (Holds : Slot → Prop) : Prop where
  top : Holds (some .top)
  object : ∀ first second : RefType, Holds (some (.object first)) →
    Holds (some (.object second)) →
    Holds (some (.object (hierarchy.commonSupertype first second)))

theorem Hierarchy.merges_known (hierarchy : Hierarchy) : hierarchy.Merges (· ≠ none) where
  top := by simp
  object _ _ _ _ := by simp

/-- A property of unknown slots, of basic types and of the elements of arrays with the
property. -/
structure Supply (Holds : Slot → Prop) : Prop where
  unknown : Holds none
  basic : ∀ type : SlotType, type.isBasic = true → Holds (some type)
  element : ∀ array element : RefType, Holds (some (.object array)) →
    array.element? = some (.ref element) → Holds (some (.object element))

theorem Supply.top {Holds : Slot → Prop} (supply : Supply Holds) : Holds (some .top) :=
  supply.basic .top rfl

/-- A property of the types that an instruction makes up, the class that it allocates or that
its constructor belongs to among them. -/
def Instruction.Supplies (Holds : Slot → Prop) : Instruction → Prop
  | .type _ operand => Holds (some (.object operand))
  | .field _ _ _ declared => Holds (some (.ofFieldType declared))
  | .method _ owner _ descriptor _ =>
      Holds (some (.object (.object owner))) ∧
        ∀ type ∈ descriptor.result, Holds (some (.ofFieldType type))
  | .push constant => Holds (some constant.slotType)
  | .multiNewArray operand _ => Holds (some (.object operand))
  | .newArray element => Holds (some (.object (.array element)))
  | .invokeDynamic _ descriptor _ _ =>
      ∀ type ∈ descriptor.result, Holds (some (.ofFieldType type))
  | _ => True

/-- A property of the objects that constructors make of uninitialized ones. -/
structure MethodContext.Supplies (context : MethodContext) (Holds : Slot → Prop) : Prop where
  thisClass : Holds (some (.object (.object context.thisClass)))
  allocated : ∀ origin operand, context.allocatedAt? origin = some operand →
    Holds (some (.object operand))

/-- The allocations are among the instructions. -/
theorem MethodContext.supplies_of_instructions
    {context : MethodContext}
    {Holds : Slot → Prop}
    (thisClass : Holds (some (.object (.object context.thisClass))))
    (supplies : ∀ instruction ∈ context.instructions.toList, instruction.Supplies Holds) :
    context.Supplies Holds where
  thisClass := thisClass
  allocated origin operand allocated := by
    unfold allocatedAt? at allocated
    split at allocated
    next found =>
      rw [← Option.some.inj allocated]
      exact supplies _ (Array.mem_toList_iff.mpr (Array.mem_of_getElem? found))
    next => cases allocated

/-- A property that unknown slots and plain types have. -/
structure Lenient (Holds : Slot → Prop) : Prop where
  unknown : Holds none
  plain : ∀ type : SlotType, type.isPlain = true → Holds (some type)

namespace Lenient

variable {Holds : Slot → Prop} (lenient : Lenient Holds)

include lenient

theorem top : Holds (some .top) :=
  lenient.plain .top rfl

theorem object (operand : RefType) : Holds (some (.object operand)) :=
  lenient.plain (.object operand) rfl

theorem fieldType (type : FieldType) : Holds (some (.ofFieldType type)) :=
  lenient.plain _ (VerificationType.isPlain_ofFieldType type)

theorem supply : Supply Holds where
  unknown := lenient.unknown
  basic type basic := lenient.plain type (VerificationType.isPlain_of_isBasic basic)
  element _ _ _ _ := lenient.object _

theorem merges (hierarchy : Hierarchy) : hierarchy.Merges Holds where
  top := lenient.top
  object _ _ _ _ := lenient.object _

theorem supplies_method (context : MethodContext) : context.Supplies Holds where
  thisClass := lenient.object _
  allocated _ _ _ := lenient.object _

theorem supplies (instruction : Instruction) : instruction.Supplies Holds := by
  cases instruction with
  | type opcode operand => exact lenient.object operand
  | field opcode owner name declared => exact lenient.fieldType declared
  | method opcode owner name descriptor interface =>
      exact ⟨lenient.object _, fun type _ => lenient.fieldType type⟩
  | push constant => exact lenient.plain _ (Constant.isPlain_slotType constant)
  | multiNewArray operand dimensions => exact lenient.object operand
  | newArray element => exact lenient.object _
  | invokeDynamic name descriptor bootstrap arguments => exact fun type _ => lenient.fieldType type
  | _ => trivial

end Lenient

/-- It depends on the origins of uninitialized objects alone whether slots have the
property. -/
theorem lenient_of_origins (Good : Nat → Prop) :
    Lenient fun slot => ∀ origin, slot = some (.uninitialized origin) → Good origin where
  unknown _ absent := by cases absent
  plain _ isPlain _ same := by
    cases same
    cases isPlain

theorem lenient_ne (origin : Nat) : Lenient (· ≠ some (.uninitialized origin)) where
  unknown absent := by cases absent
  plain _ isPlain same := by
    cases same
    cases isPlain

namespace SlotState

/-- Two states with the same slots are the same. -/
theorem ext_slots
    {left right : SlotState}
    (locals_eq : left.locals = right.locals)
    (slots_eq : left.stack.slots = right.stack.slots) :
    left = right := by
  obtain ⟨locals, stack⟩ := left
  obtain ⟨otherLocals, otherStack⟩ := right
  exact congrArg₂ SlotState.mk locals_eq (Stack.ext slots_eq)

/-- All slots of a state have a property. -/
structure All (Holds : Slot → Prop) (state : SlotState) : Prop where
  locals : ∀ slot ∈ state.locals, Holds slot
  stack : ∀ slot ∈ state.stack.slots, Holds slot

/-- Some slot holds an uninitialized object of the origin. -/
def Mentions (state : SlotState) (origin : Nat) : Prop :=
  some (.uninitialized origin) ∈ state.locals ∨ some (.uninitialized origin) ∈ state.stack.slots

theorem not_mentions_iff {state : SlotState} {origin : Nat} :
    ¬state.Mentions origin ↔ state.All (· ≠ some (.uninitialized origin)) := by
  constructor
  · intro absent
    exact ⟨fun slot present same => absent (Or.inl (same ▸ present)),
      fun slot present same => absent (Or.inr (same ▸ present))⟩
  · rintro ⟨locals, stack⟩ (present | present)
    · exact locals _ present rfl
    · exact stack _ present rfl

variable {Holds : Slot → Prop} {state : SlotState}

theorem All.pushSlot
    (all : state.All Holds)
    {slot : Slot}
    (holds : Holds slot) :
    (state.pushSlot slot).All Holds :=
  ⟨all.locals, List.forall_mem_cons.mpr ⟨holds, all.stack⟩⟩

theorem All.drop (all : state.All Holds) (count : Nat) : (state.drop count).All Holds :=
  ⟨all.locals, fun slot present => all.stack slot (List.mem_of_mem_drop present)⟩

theorem All.replaceAll
    (all : state.All Holds)
    {old new : SlotType}
    (holds : Holds (some new)) :
    (state.replaceAll old new).All Holds := by
  have replaced : ∀ slot, Holds slot → Holds (if slot = some old then some new else slot) := by
    intro slot before
    split
    · exact holds
    · exact before
  exact ⟨List.forall_mem_map.mpr fun slot present => replaced slot (all.locals slot present),
    List.forall_mem_map.mpr fun slot present => replaced slot (all.stack slot present)⟩

section Operations

variable (supply : Supply Holds)

include supply

/-- There is an unknown slot below the bottom of the stack. -/
theorem All.slotAt (all : state.All Holds) (depth : Nat) : Holds (state.slotAt depth) := by
  unfold SlotState.slotAt
  cases found : state.stack.slots[depth]? with
  | none => exact supply.unknown
  | some slot => exact all.stack slot (List.mem_of_getElem? found)

theorem All.localSlot (all : state.All Holds) (index : Nat) : Holds (state.localSlot index) := by
  unfold SlotState.localSlot
  cases found : state.locals[index]? with
  | none => exact supply.unknown
  | some slot => exact all.locals slot (List.mem_of_getElem? found)

theorem All.enterHandler (all : state.All Holds) : state.enterHandler.All Holds := by
  refine ⟨all.locals, List.forall_mem_singleton.mpr ?_⟩
  rw [List.getLastD_eq_getLast?]
  cases found : state.stack.slots.getLast? with
  | none => exact supply.unknown
  | some slot => exact all.stack slot (List.mem_of_getLast? found)

theorem holds_of_mem_extendTo
    {locals : List Slot}
    (all : ∀ slot ∈ locals, Holds slot)
    {index : Nat}
    {slot : Slot}
    (present : slot ∈ extendTo locals index) :
    Holds slot := by
  obtain ⟨place, found⟩ := List.mem_iff_getElem?.mp present
  cases slot with
  | none => exact supply.unknown
  | some type => exact all _ (List.mem_of_getElem? (eq_of_getElem?_extendTo found))

theorem All.touch (all : state.All Holds) (index : Nat) : (state.touch index).All Holds :=
  ⟨fun _ present => holds_of_mem_extendTo supply all.locals present, all.stack⟩

theorem All.store
    (all : state.All Holds)
    (index : Nat)
    {slot : Slot}
    (holds : Holds slot) :
    (state.store index slot).All Holds := by
  refine ⟨fun other present => ?_, all.stack⟩
  obtain ⟨place, found⟩ := List.mem_iff_getElem?.mp present
  rw [getElem?_store] at found
  split at found
  · exact Option.some.inj found ▸ holds
  · split at found
    · exact Option.some.inj found ▸ supply.top
    · rw [getElem?_breakWideBefore, Option.map_eq_some_iff] at found
      obtain ⟨before, before_eq, rfl⟩ := found
      split
      · exact supply.top
      · exact holds_of_mem_extendTo supply all.locals (List.mem_of_getElem? before_eq)

theorem All.push
    (all : state.All Holds)
    {type : SlotType}
    (holds : Holds (some type)) :
    (state.push type).All Holds := by
  unfold SlotState.push
  split
  · exact (all.pushSlot holds).pushSlot supply.top
  · exact all.pushSlot holds

theorem All.pushField
    (all : state.All Holds)
    {type : FieldType}
    (holds : Holds (some (.ofFieldType type))) :
    (state.pushField type).All Holds :=
  all.push supply holds

theorem All.pushResult
    (all : state.All Holds)
    {descriptor : MethodDescriptor}
    (holds : ∀ type ∈ descriptor.result, Holds (some (.ofFieldType type))) :
    (state.pushResult descriptor).All Holds := by
  unfold SlotState.pushResult
  split
  · exact all.pushField supply (holds _ ‹_›)
  · exact all

theorem All.access (all : state.All Holds) (access : LocalAccess) :
    (state.access access).All Holds := by
  obtain ⟨index, kind, isStore⟩ := access
  cases isStore with
  | true => exact (all.drop _).store supply index (all.slotAt supply _)
  | false =>
      cases kind with
      | reference => exact (all.touch supply index).pushSlot (all.localSlot supply index)
      | int => exact all.push supply (supply.basic .integer rfl)
      | float => exact all.push supply (supply.basic .float rfl)
      | long => exact all.push supply (supply.basic .long rfl)
      | double => exact all.push supply (supply.basic .double rfl)

theorem holds_elementOf {slot : Slot} (holds : Holds slot) : Holds (elementOf slot) := by
  unfold elementOf
  split
  · split
    · exact supply.element _ _ holds ‹_›
    · exact supply.unknown
  · exact supply.basic .null rfl
  · exact supply.unknown

theorem All.act
    (all : state.All Holds)
    {action : SimpleAction}
    (basic : action.isBasic = true) :
    (state.act action).All Holds := by
  cases action with
  | keep => exact all
  | discard pops => exact all.drop pops
  | replace pops result =>
      exact (all.drop pops).push supply (supply.basic result basic)
  | rearrange pops depths =>
      refine ⟨all.locals, fun slot present => ?_⟩
      rcases List.mem_append.mp present with moved | below
      · obtain ⟨depth, _, rfl⟩ := List.mem_map.mp moved
        exact all.slotAt supply depth
      · exact (all.drop pops).stack slot below
  | access access => exact all.access supply access
  | element => exact (all.drop 2).pushSlot (holds_elementOf supply (all.slotAt supply 1))

omit supply in
theorem All.completeReceiver
    (all : state.All Holds)
    {context : MethodContext}
    (supplies : context.Supplies Holds)
    (receiver : Slot)
    {owner : BinaryName}
    (holds : Holds (some (.object (.object owner)))) :
    (state.completeReceiver context receiver owner).All Holds := by
  unfold SlotState.completeReceiver
  split
  · refine all.replaceAll ?_
    cases allocated : context.allocatedAt? _ with
    | none => exact holds
    | some operand => exact supplies.allocated _ operand allocated
  · exact all.replaceAll supplies.thisClass
  · exact all

/-- What holds of all slots holds of them behind an instruction, if it holds of the types that
this makes up. -/
theorem All.interpret
    (all : state.All Holds)
    {context : MethodContext}
    {position : Nat}
    {instruction : Instruction}
    (supplies : context.Supplies Holds)
    (made : instruction.Supplies Holds)
    (fresh : instruction.isNew = true → Holds (some (.uninitialized position))) :
    (state.interpret context position instruction).All Holds := by
  cases instruction with
  | mark label => exact all
  | simple opcode => exact all.act supply opcode.isBasic_simpleAction
  | var opcode index =>
      simp only [SlotState.interpret]
      split
      · exact all.access supply _
      · exact all
  | type opcode operand =>
      simp only [SlotState.interpret]
      split
      · exact all.push supply (fresh rfl)
      · exact (all.drop 1).push supply made
      · exact (all.drop 1).push supply (supply.basic .integer rfl)
      · exact all
  | field opcode owner name declared =>
      simp only [SlotState.interpret]
      split
      · exact all.pushField supply made
      · exact (all.drop 1).pushField supply made
      · exact all.drop _
      · exact all.drop _
  | method opcode owner name descriptor interface =>
      have called := all.drop (descriptor.parameterLength false)
      refine All.pushResult supply ?_ made.2
      split
      · exact called
      · split
        · exact (called.drop 1).completeReceiver supplies _ made.1
        · exact called.drop 1
      · exact called.drop 1
  | increment index value => exact all
  | push constant => exact all.push supply made
  | branch opcode target =>
      simp only [SlotState.interpret]
      split
      · exact (all.drop _).pushSlot supply.top
      · exact all.drop _
  | lookupSwitch fallback targets => exact all.drop 1
  | tableSwitch fallback low targets => exact all.drop 1
  | multiNewArray operand dimensions => exact (all.drop _).push supply made
  | newArray element => exact (all.drop 1).push supply made
  | invokeDynamic name descriptor bootstrap arguments =>
      exact (all.drop _).pushResult supply made

end Operations

/-- Behind an instruction no origins are mentioned but those before and, behind an
allocation, its own position. -/
theorem mentions_of_interpret
    {context : MethodContext}
    {position origin : Nat}
    {instruction : Instruction}
    (mentions : (state.interpret context position instruction).Mentions origin) :
    state.Mentions origin ∨ instruction.isNew = true ∧ position = origin := by
  refine Classical.or_iff_not_imp_right.mpr fun other => Classical.byContradiction fun absent => ?_
  refine absurd mentions (not_mentions_iff.mpr ?_)
  refine (not_mentions_iff.mp absent).interpret (lenient_ne origin).supply
    ((lenient_ne origin).supplies_method context) ((lenient_ne origin).supplies instruction) ?_
  rintro isNew ⟨⟩
  exact other ⟨isNew, rfl⟩

end SlotState

namespace SlotState

/-- To forget the objects of an origin changes nothing if there are none. -/
theorem replaceAll_eq_self
    {state : SlotState}
    {origin : Nat}
    (absent : ¬state.Mentions origin)
    (new : SlotType) :
    state.replaceAll (.uninitialized origin) new = state := by
  obtain ⟨locals, stack⟩ := not_mentions_iff.mp absent
  have kept : ∀ slots : List Slot, (∀ slot ∈ slots, slot ≠ some (.uninitialized origin)) →
      (slots.map fun slot => if slot = some (.uninitialized origin) then some new else slot) =
        slots := by
    intro slots others
    calc slots.map (fun slot => if slot = some (.uninitialized origin) then some new else slot)
        = slots.map id := List.map_congr_left fun slot present => if_neg (others slot present)
      _ = slots := List.map_id slots
  exact ext_slots (kept _ locals) (kept _ stack)

end SlotState

/-- The locals at the entry of a method are of its class and of the types of its parameters. -/
theorem Method.holds_of_mem_typedStartLocals
    {Holds : Slot → Prop}
    (supply : Supply Holds)
    {method : Method}
    {thisClass : BinaryName}
    (holds : Holds (some (.object (.object thisClass))))
    (parameters : ∀ type ∈ method.descriptor.parameters, Holds (some (.ofFieldType type))) :
    ∀ slot ∈ method.typedStartLocals thisClass, Holds slot := by
  intro slot present
  rcases List.mem_append.mp present with isReceiver | isParameter
  · split at isReceiver
    · rw [List.mem_singleton.mp isReceiver, receiver]
      split
      · exact supply.basic .uninitializedThis rfl
      · exact holds
    · exact absurd isReceiver List.not_mem_nil
  · obtain ⟨slot, isSlot, rfl⟩ := List.mem_map.mp isParameter
    obtain ⟨type, isType, inSlots⟩ := List.mem_flatMap.mp isSlot
    cases slot with
    | none => exact supply.top
    | some found =>
        have same : found = type := by
          split at inSlots <;> simpa using inSlots
        exact same ▸ parameters type isType

theorem Lenient.holds_of_mem_typedStartLocals
    {Holds : Slot → Prop}
    (lenient : Lenient Holds)
    (method : Method)
    (thisClass : BinaryName) :
    ∀ slot ∈ method.typedStartLocals thisClass, Holds slot :=
  method.holds_of_mem_typedStartLocals lenient.supply (lenient.object _)
    fun type _ => lenient.fieldType type

/-! ## Merges -/

namespace Hierarchy

variable {hierarchy : Hierarchy} {Holds : Slot → Prop} (merges : hierarchy.Merges Holds)

include merges

theorem holds_join
    {first second : Slot}
    (holds : Holds first)
    (other : Holds second) :
    Holds (hierarchy.join first second) := by
  cases first with
  | none => exact other
  | some firstType =>
      cases second with
      | none => exact holds
      | some secondType =>
          simp only [join, joinType]
          split
          · exact holds
          · split
            · exact other
            · exact holds
            · exact merges.object _ _ holds other
            · exact merges.top

theorem holds_mergeSlot
    (widen : Bool)
    {existing incoming : Slot}
    (holds : Holds existing)
    (other : Holds incoming) :
    Holds (hierarchy.mergeSlot widen existing incoming) := by
  unfold mergeSlot
  dsimp only
  split
  · exact holds
  · split
    · exact merges.top
    · exact holds_join merges holds other

/-- A slot that is merged into a missing one is there afterwards, or widened. -/
theorem holds_mergeSlot_none (widen : Bool) {slot : Slot} (holds : Holds slot) :
    Holds (hierarchy.mergeSlot widen none slot) := by
  unfold mergeSlot
  dsimp only [join]
  split
  next same => exact same ▸ holds
  next =>
      split
      · exact merges.top
      · exact holds

/-- What holds of the slots of two lists holds of those of their merge. -/
theorem holds_of_mem_mergeSlots
    {widen : Bool}
    {existing incoming : List Slot}
    (all : ∀ slot ∈ existing, Holds slot)
    (others : ∀ slot ∈ incoming, Holds slot) :
    ∀ slot ∈ hierarchy.mergeSlots widen existing incoming, Holds slot := by
  intro merged present
  obtain ⟨index, found⟩ := List.mem_iff_getElem?.mp present
  rw [getElem?_mergeSlots] at found
  cases incoming_eq : incoming[index]? with
  | none =>
      rw [incoming_eq] at found
      exact all merged (List.mem_of_getElem? found)
  | some slot =>
      have holds := others slot (List.mem_of_getElem? incoming_eq)
      rw [incoming_eq] at found
      obtain rfl := Option.some.inj found
      cases existing_eq : existing[index]? with
      | none => exact holds_mergeSlot_none merges widen holds
      | some known =>
          exact holds_mergeSlot merges widen (all known (List.mem_of_getElem? existing_eq)) holds

theorem holds_of_mem_mergeStack
    {widen : Bool}
    {existing incoming : Stack}
    (all : ∀ slot ∈ existing.slots, Holds slot)
    (others : ∀ slot ∈ incoming.slots, Holds slot) :
    ∀ slot ∈ (hierarchy.mergeStack widen existing incoming).slots, Holds slot := by
  intro merged present
  rw [← List.mem_reverse, slots_mergeStack] at present
  exact holds_of_mem_mergeSlots merges (fun slot known => all slot (List.mem_reverse.mp known))
    (fun slot passed => others slot (List.mem_reverse.mp passed)) merged present

/-- A handler finds an object, or nothing known, on the stack. -/
theorem holds_caughtType
    {classes : List BinaryName}
    (unknown : Holds none)
    (caught : ∀ name ∈ classes, Holds (some (.object (.object name)))) :
    Holds (hierarchy.caughtType classes) := by
  unfold caughtType
  refine List.foldlRecOn classes _ unknown fun _ holds name present => ?_
  exact holds_join merges holds (caught name present)

end Hierarchy

theorem Lenient.holds_caughtType
    {Holds : Slot → Prop}
    (lenient : Lenient Holds)
    (hierarchy : Hierarchy)
    (classes : List BinaryName) :
    Holds (hierarchy.caughtType classes) :=
  Hierarchy.holds_caughtType (lenient.merges hierarchy) lenient.unknown fun _ _ => lenient.object _

end StackMaps
