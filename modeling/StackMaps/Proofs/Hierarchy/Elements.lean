import StackMaps.Hierarchy.Assignable

/-!
# Assignability by elements

Arrays are compared by the numbers of their dimensions. The same comes out if one dimension
after the other is taken off both arrays: arrays of primitive types compare by equality, arrays
of references compare like their elements, and a class that is met on the way compares with the
type on the other side.
-/

namespace StackMaps
namespace RefType

/-- Is this a type of arrays? -/
def isArray : RefType → Bool
  | .object _ => false
  | .objectArray _ _ | .primitiveArray _ _ => true

/-- The number of dimensions, none for a class. -/
def dimensions : RefType → Nat
  | .object _ => 0
  | .objectArray additional _ | .primitiveArray additional _ => additional + 1

/-- Arrays with elements of some type have elements of that type. -/
@[simp] theorem element?_array (element : FieldType) :
    (array element).element? = some element := by
  cases element with
  | base type => rfl
  | ref type => cases type <;> rfl

/-- A type of arrays is the one of arrays with its elements, and a class has no elements. -/
theorem map_array_element? (type : RefType) :
    type.element?.map array = if type.isArray then some type else none := by
  cases type with
  | object name => rfl
  | objectArray additional element => cases additional <;> rfl
  | primitiveArray additional element => cases additional <;> rfl

theorem element?_eq_some_iff {type : RefType} {element : FieldType} :
    type.element? = some element ↔ type = array element := by
  constructor
  · intro element_eq
    have rebuilt := map_array_element? type
    rw [element_eq, Option.map_some] at rebuilt
    split at rebuilt
    · exact (Option.some.inj rebuilt).symm
    · cases rebuilt
  · rintro rfl
    exact element?_array element

theorem dimensions_array (type : RefType) :
    (array (.ref type)).dimensions = type.dimensions + 1 := by
  cases type <;> rfl

theorem array_ne_object (element : FieldType) (name : BinaryName) :
    array element ≠ .object name := by
  intro same
  have elements := element?_array element
  rw [same] at elements
  cases elements

/-- A type is a class or a type of arrays. -/
theorem eq_object_or_eq_array (type : RefType) :
    (∃ name, type = .object name) ∨ ∃ element, type = array element := by
  have rebuilt := map_array_element? type
  cases type with
  | object name => exact Or.inl ⟨name, rfl⟩
  | objectArray additional element =>
      obtain ⟨elements, _, same⟩ := Option.map_eq_some_iff.mp rebuilt
      exact Or.inr ⟨elements, same.symm⟩
  | primitiveArray additional element =>
      obtain ⟨elements, _, same⟩ := Option.map_eq_some_iff.mp rebuilt
      exact Or.inr ⟨elements, same.symm⟩

/-! ## Taking dimensions off -/

/-- Assignability by the elements of arrays. An array is assignable to the three classes that
all arrays have in common, and no class is assignable to an array. -/
def isAssignableByElements
    (classAssignable : BinaryName → BinaryName → Bool)
    (sub super : RefType) : Bool :=
  match super with
  | .object superName =>
      match sub with
      | .object subName => classAssignable subName superName
      | _ => superName ∈ [BinaryName.object, .cloneable, .serializable]
  | _ =>
      match _subElement : sub.element?, super.element? with
      | some (.base subType), some (.base superType) => subType == superType
      | some (.ref subType), some (.ref superType) =>
          isAssignableByElements classAssignable subType superType
      | _, _ => false
termination_by sub.dimensions
decreasing_by
  rw [element?_eq_some_iff.mp _subElement, dimensions_array]
  exact Nat.lt_succ_self _

variable (classAssignable : BinaryName → BinaryName → Bool)

theorem isAssignable_array_object (element : FieldType) (super : BinaryName) :
    isAssignable classAssignable (array element) (.object super) = super.isArraySupertype := by
  cases element with
  | base type => rfl
  | ref type => cases type <;> rfl

theorem isAssignable_object_array (sub : BinaryName) (element : FieldType) :
    isAssignable classAssignable (.object sub) (array element) = false := by
  cases element with
  | base type => rfl
  | ref type => cases type <;> rfl

/-- Arrays compare like their elements, which must be of one kind. -/
theorem isAssignable_array (sub super : FieldType) :
    isAssignable classAssignable (array sub) (array super) =
      match sub, super with
      | .base subType, .base superType => subType == superType
      | .ref subType, .ref superType => isAssignable classAssignable subType superType
      | _, _ => false := by
  cases sub with
  | base subType =>
      cases super with
      | base superType => simp [array, isAssignable]
      | ref superType => cases superType <;> simp [array, isAssignable]
  | ref subType =>
      cases super with
      | base superType => cases subType <;> simp [array, isAssignable]
      | ref superType => cases subType <;> cases superType <;> simp [array, isAssignable]

/-- The three classes above all arrays are the ones that are told apart. -/
theorem isArraySupertype_eq_decide (name : BinaryName) :
    name.isArraySupertype = decide (name ∈ [BinaryName.object, .cloneable, .serializable]) := by
  rw [Bool.eq_iff_iff]
  simp [BinaryName.isArraySupertype, or_assoc]

theorem isAssignableByElements_array_object (element : FieldType) (super : BinaryName) :
    isAssignableByElements classAssignable (array element) (.object super) =
      decide (super ∈ [BinaryName.object, .cloneable, .serializable]) := by
  rw [isAssignableByElements]
  exact array_ne_object element

theorem isAssignableByElements_object_array (sub : BinaryName) (element : FieldType) :
    isAssignableByElements classAssignable (.object sub) (array element) = false := by
  rw [isAssignableByElements]
  · rfl
  · exact array_ne_object element

/-- One dimension is taken off arrays on both sides. -/
theorem isAssignableByElements_array (sub super : FieldType) :
    isAssignableByElements classAssignable (array sub) (array super) =
      match sub, super with
      | .base subType, .base superType => subType == superType
      | .ref subType, .ref superType => isAssignableByElements classAssignable subType superType
      | _, _ => false := by
  rw [isAssignableByElements]
  · cases sub <;> cases super <;> split <;> simp_all
  · exact array_ne_object super

/-- Comparing the numbers of dimensions and taking dimensions off come to the same. -/
theorem isAssignable_eq (sub super : RefType) :
    isAssignable classAssignable sub super = isAssignableByElements classAssignable sub super := by
  induction count_eq : sub.dimensions using Nat.strongRecOn generalizing sub super with
  | ind count hypothesis =>
      rcases super.eq_object_or_eq_array with ⟨superName, rfl⟩ | ⟨superElement, rfl⟩
      · rcases sub.eq_object_or_eq_array with ⟨subName, rfl⟩ | ⟨subElement, rfl⟩
        · rw [isAssignable, isAssignableByElements]
        · rw [isAssignable_array_object, isAssignableByElements_array_object,
            isArraySupertype_eq_decide]
      · rcases sub.eq_object_or_eq_array with ⟨subName, rfl⟩ | ⟨subElement, rfl⟩
        · rw [isAssignable_object_array, isAssignableByElements_object_array]
        · rw [isAssignable_array, isAssignableByElements_array]
          split
          next => rfl
          next subType superType =>
            refine hypothesis subType.dimensions ?_ subType superType rfl
            rw [← count_eq, dimensions_array]
            exact Nat.lt_succ_self _
          next => rfl

/-- Over whatever relation of classes, types compare as they do when one dimension after the
other is taken off, and taking a dimension off undoes putting one on, in either order. -/
theorem isAssignable_eq_isAssignableByElements :
    (∀ sub super, isAssignable classAssignable sub super =
        isAssignableByElements classAssignable sub super) ∧
      (∀ type : RefType, type.element?.map array = if type.isArray then some type else none) ∧
      ∀ element, (array element).element? = some element :=
  ⟨isAssignable_eq classAssignable, map_array_element?, element?_array⟩

end RefType
end StackMaps
