import StackMaps.Hierarchy.Basic

/-!
# Assignability

A relation between classes extends to arrays: arrays of one depth compare by
their elements, and an array is also an object that can be cloned and
serialized, on every level of nesting.
-/

namespace StackMaps

/-- Is every array assignable to the class? -/
def BinaryName.isArraySupertype (name : BinaryName) : Bool :=
  name == .object || name == .cloneable || name == .serializable

/-- Is the first type assignable to the second, given which classes are? -/
def RefType.isAssignable
    (classAssignable : BinaryName → BinaryName → Bool) :
    RefType → RefType → Bool
  | .object sub, .object super => classAssignable sub super
  | .primitiveArray _ _, .object super => super.isArraySupertype
  | .objectArray _ _, .object super => super.isArraySupertype
  | .primitiveArray subDepth sub, .primitiveArray superDepth super =>
      subDepth == superDepth && sub == super
  | .primitiveArray subDepth _, .objectArray superDepth super =>
      superDepth < subDepth && super.isArraySupertype
  | .objectArray subDepth sub, .objectArray superDepth super =>
      if subDepth < superDepth then false
      else if subDepth = superDepth then classAssignable sub super
      else super.isArraySupertype
  | .object _, .objectArray _ _ => false
  | .object _, .primitiveArray _ _ => false
  | .objectArray _ _, .primitiveArray _ _ => false

namespace Hierarchy

/-- Is a class assignable to another? All of them are to the root class, even
unknown ones. -/
def classAssignable (hierarchy : Hierarchy) (sub super : BinaryName) : Bool :=
  super == .object || hierarchy.isSubclass sub super

/-- Can a value of type `sub` be used where one of type `super` is wanted? -/
def isAssignable (hierarchy : Hierarchy) (super sub : RefType) : Bool :=
  RefType.isAssignable hierarchy.classAssignable sub super

end Hierarchy

end StackMaps
