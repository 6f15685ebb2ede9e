import StackMaps.Proofs.Listing.Operands
import StackMaps.Proofs.Slots.Origins

/-!
# Names in slots

The classes in slots come from instructions, descriptors, exception ranges and the
hierarchy. Where none of these has a name with a line break, no class in a slot has one.
-/

namespace StackMaps

open Listing (toString_string)

/-- The name is written on one line. -/
def BinaryName.OnOneLine (name : BinaryName) : Prop :=
  '\n' ∉ name.text.toList

/-- The name in a reference type, if there is one, is written on one line. -/
def RefType.OnOneLine : RefType → Prop
  | .object name | .objectArray _ name => name.OnOneLine
  | .primitiveArray _ _ => True

/-- The name in a field type, if there is one, is written on one line. -/
def FieldType.OnOneLine : FieldType → Prop
  | .base _ => True
  | .ref type => type.OnOneLine

/-- The name of the class in a slot, if it holds an object, is written on one line. -/
def Slot.OnOneLine (slot : Slot) : Prop :=
  ∀ type, slot = some (.object type) → type.OnOneLine

instance (name : BinaryName) : Decidable name.OnOneLine :=
  inferInstanceAs (Decidable ('\n' ∉ name.text.toList))

/-! ## Descriptors -/

theorem BinaryName.onOneLine_iff_descriptor {name : BinaryName} :
    name.OnOneLine ↔ '\n' ∉ name.descriptor := by
  simp [OnOneLine, descriptor]

theorem RefType.onOneLine_iff_descriptor {type : RefType} :
    type.OnOneLine ↔ '\n' ∉ type.descriptor := by
  cases type with
  | object name => exact BinaryName.onOneLine_iff_descriptor
  | objectArray additional name =>
      have inName := @BinaryName.onOneLine_iff_descriptor name
      simpa [OnOneLine, descriptor, brackets] using inName
  | primitiveArray additional element =>
      refine iff_of_true trivial ?_
      cases element <;> simp [descriptor, brackets, BaseType.descriptor, BaseType.letter]

theorem FieldType.onOneLine_iff_descriptor {type : FieldType} :
    type.OnOneLine ↔ '\n' ∉ type.descriptor := by
  cases type with
  | base element => cases element <;> exact iff_of_true trivial (by decide)
  | ref type => exact RefType.onOneLine_iff_descriptor

/-- An operand is written on one line exactly if its name is. -/
theorem RefType.onOneLine_iff_operand {type : RefType} :
    type.OnOneLine ↔ '\n' ∉ type.operand.toList := by
  cases type with
  | object name => exact Iff.rfl
  | objectArray additional name => simp [onOneLine_iff_descriptor, operand, render]
  | primitiveArray additional base => simp [onOneLine_iff_descriptor, operand, render]

theorem RefType.OnOneLine.array {type : RefType} (single : type.OnOneLine) :
    (RefType.array (.ref type)).OnOneLine := by
  cases type <;> exact single

theorem RefType.OnOneLine.element
    {type element : RefType}
    (single : type.OnOneLine)
    (isElement : type.element? = some (.ref element)) :
    element.OnOneLine := by
  cases type with
  | object name => cases isElement
  | objectArray additional name =>
      cases additional <;> obtain rfl := FieldType.ref.inj (Option.some.inj isElement) <;>
        exact single
  | primitiveArray additional base =>
      cases additional with
      | zero => cases isElement
      | succ additional =>
          obtain rfl := FieldType.ref.inj (Option.some.inj isElement)
          exact trivial

/-- The types in the descriptor of a method are written on one line if it is. -/
theorem MethodDescriptor.onOneLine_of_render
    {descriptor : MethodDescriptor}
    (single : '\n' ∉ descriptor.render.toList) :
    (∀ type ∈ descriptor.parameters, type.OnOneLine) ∧
      ∀ type ∈ descriptor.result, type.OnOneLine := by
  rw [render, String.toList_ofList] at single
  constructor
  · intro type present
    refine FieldType.onOneLine_iff_descriptor.mpr fun broken => single ?_
    exact List.mem_append_left _ (List.mem_cons_of_mem _
      (List.mem_flatMap.mpr ⟨type, present, broken⟩))
  · intro type isResult
    refine FieldType.onOneLine_iff_descriptor.mpr fun broken => single ?_
    refine List.mem_append_right _ (List.mem_cons_of_mem _ ?_)
    rw [Option.mem_def.mp isResult]
    exact broken

/-! ## What makes up types -/

theorem Slot.onOneLine_object {type : RefType} (single : type.OnOneLine) :
    Slot.OnOneLine (some (.object type)) := by
  rintro _ ⟨⟩
  exact single

theorem Slot.onOneLine_ofFieldType {type : FieldType} (single : type.OnOneLine) :
    Slot.OnOneLine (some (.ofFieldType type)) := by
  cases type with
  | base element => cases element <;> rintro _ ⟨⟩
  | ref type => exact onOneLine_object single

theorem supply_onOneLine : Supply Slot.OnOneLine where
  unknown := nofun
  basic type basic := by
    rintro operand ⟨⟩
    cases basic
  element array element single isElement :=
    Slot.onOneLine_object ((single array rfl).element isElement)

theorem Slot.onOneLine_uninitialized (origin : Nat) :
    Slot.OnOneLine (some (.uninitialized origin)) :=
  nofun

/-- A constant has no other name than those of the classes that are known from the start and
that of its type. -/
theorem Constant.onOneLine_slotType
    {constant : Constant}
    (single : '\n' ∉ constant.pushText.toList) :
    Slot.OnOneLine (some constant.slotType) := by
  cases constant with
  | string text => exact Slot.onOneLine_object (by decide : BinaryName.string.OnOneLine)
  | classRef type => exact Slot.onOneLine_object (by decide : BinaryName.classObject.OnOneLine)
  | methodType descriptor =>
      exact Slot.onOneLine_object (by decide : BinaryName.methodType.OnOneLine)
  | methodHandle handle =>
      exact Slot.onOneLine_object (by decide : BinaryName.methodHandle.OnOneLine)
  | dynamic name type =>
      refine Slot.onOneLine_ofFieldType (FieldType.onOneLine_iff_descriptor.mpr fun broken => ?_)
      refine single ?_
      simp only [pushText, text, FieldType.render, String.toList_append, String.toList_ofList]
      exact List.mem_append_right _ (List.mem_append_right _ broken)
  | _ => rintro _ ⟨⟩

/-- The types that an instruction makes up are in its written form, or known from the start. -/
theorem Instruction.supplies_onOneLine
    {instruction : Instruction}
    (single : '\n' ∉ instruction.text.toList) :
    instruction.Supplies Slot.OnOneLine := by
  have ofOperand : ∀ type : RefType,
      ('\n' ∈ type.operand.toList → '\n' ∈ instruction.text.toList) → type.OnOneLine :=
    fun type shown => RefType.onOneLine_iff_operand.mpr fun broken => single (shown broken)
  have ofResult : ∀ descriptor : MethodDescriptor,
      ('\n' ∈ descriptor.render.toList → '\n' ∈ instruction.text.toList) →
      ∀ type ∈ descriptor.result, Slot.OnOneLine (some (.ofFieldType type)) := by
    intro descriptor shown type isResult
    have singleTypes := MethodDescriptor.onOneLine_of_render fun broken => single (shown broken)
    exact Slot.onOneLine_ofFieldType (singleTypes.2 type isResult)
  cases instruction with
  | type opcode operand =>
      refine Slot.onOneLine_object (ofOperand operand fun broken => ?_)
      unfold text
      simp only [toString_string, String.toList_append, List.mem_append, broken, or_true]
  | field opcode owner name declared =>
      refine Slot.onOneLine_ofFieldType (FieldType.onOneLine_iff_descriptor.mpr fun broken => ?_)
      refine single ?_
      unfold text
      simp only [FieldType.render, toString_string, String.toList_append, List.mem_append,
        String.toList_ofList, broken, or_true]
  | method opcode owner name descriptor interface =>
      refine ⟨Slot.onOneLine_object (ofOperand (.object owner) fun broken => ?_),
        ofResult descriptor fun broken => ?_⟩
      · rw [RefType.operand] at broken
        unfold text
        simp only [toString_string, String.toList_append, List.mem_append, broken, true_or,
          or_true]
      · unfold text
        simp only [toString_string, String.toList_append, List.mem_append, broken, true_or,
          or_true]
  | push constant => exact Constant.onOneLine_slotType single
  | multiNewArray operand dimensions =>
      refine Slot.onOneLine_object (ofOperand operand fun broken => ?_)
      unfold text
      simp only [toString_string, String.toList_append, List.mem_append, broken, true_or,
        or_true]
  | newArray element =>
      refine Slot.onOneLine_object ?_
      cases element with
      | base type => exact trivial
      | ref type =>
          refine RefType.OnOneLine.array (ofOperand type fun broken => ?_)
          unfold text
          simp only [String.toList_append, List.mem_append, broken, or_true]
  | invokeDynamic name descriptor bootstrap arguments =>
      refine ofResult descriptor fun broken => ?_
      unfold text
      simp only [toString_string, String.toList_append, List.mem_append, broken, true_or,
        or_true]
  | _ => trivial

/-! ## Hierarchies -/

namespace Hierarchy

/-- All superclasses have names that are written on one line. -/
def OnOneLine (hierarchy : Hierarchy) : Prop :=
  ∀ name record, hierarchy.lookup name = some record →
    ∀ superclass ∈ record.superclass, superclass.OnOneLine

variable {hierarchy : Hierarchy}

/-- The walk up from a class ends at it, at one of its superclasses or at the root class. -/
theorem OnOneLine.superclassFrom
    (single : hierarchy.OnOneLine)
    (other : BinaryName)
    (unvisited : List BinaryName)
    {current : BinaryName}
    (singleStart : current.OnOneLine) :
    (hierarchy.superclassFrom other unvisited current).OnOneLine := by
  have root : BinaryName.object.OnOneLine := by decide
  fun_induction Hierarchy.superclassFrom hierarchy other unvisited current with
  | case1 unvisited current assignable => exact singleStart
  | case2 unvisited current unrelated last => exact root
  | case3 unvisited current unrelated superclass isSuper known hypothesis =>
      obtain ⟨record, found, isSuper⟩ := Option.bind_eq_some_iff.mp isSuper
      exact hypothesis (single current record found superclass isSuper)
  | case4 unvisited current unrelated superclass isSuper visited => exact root

theorem OnOneLine.commonSupertype
    (single : hierarchy.OnOneLine)
    {first second : RefType}
    (singleFirst : first.OnOneLine)
    (singleSecond : second.OnOneLine) :
    (hierarchy.commonSupertype first second).OnOneLine := by
  have root : (RefType.object .object).OnOneLine := (by decide : BinaryName.object.OnOneLine)
  unfold Hierarchy.commonSupertype
  split
  · exact singleFirst
  split
  · exact singleSecond
  split
  · split
    · exact single.superclassFrom _ _ singleFirst
    · exact root
  · exact single.superclassFrom _ _ singleFirst
  · exact root

theorem OnOneLine.merges (single : hierarchy.OnOneLine) : hierarchy.Merges Slot.OnOneLine where
  top := nofun
  object _ _ singleFirst singleSecond :=
    Slot.onOneLine_object (single.commonSupertype (singleFirst _ rfl) (singleSecond _ rfl))

end Hierarchy

end StackMaps
