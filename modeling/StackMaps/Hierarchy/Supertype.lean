import StackMaps.Hierarchy.Assignable

/-!
# Common supertypes

The common supertype of two types is the one to which the other is assignable,
or else the closest superclass of the first that suits the second as well.
-/

namespace StackMaps
namespace Hierarchy

/-- The first class, from `current` upwards, to which `other` is assignable. The
walk follows each class once and ends at the root class. -/
def superclassFrom
    (hierarchy : Hierarchy)
    (other : BinaryName)
    (unvisited : List BinaryName)
    (current : BinaryName) : BinaryName :=
  if hierarchy.classAssignable other current then current
  else
    match (hierarchy.lookup current).bind (·.superclass) with
    | none => .object
    | some superclass =>
        if _present : current ∈ unvisited then
          superclassFrom hierarchy other (unvisited.erase current) superclass
        else .object
termination_by unvisited.length
decreasing_by
  have := List.length_erase_of_mem _present
  have := List.length_pos_of_mem _present
  omega

/-- The closest superclass of the first class to which the second is
assignable. -/
def commonSuperclass (hierarchy : Hierarchy) (first second : BinaryName) : BinaryName :=
  hierarchy.superclassFrom second hierarchy.classes first

/-- The common supertype of two types. Arrays of classes with the same depth meet
in an array, and all other unrelated types in the root class. -/
def commonSupertype (hierarchy : Hierarchy) (first second : RefType) : RefType :=
  if hierarchy.isAssignable first second then first
  else if hierarchy.isAssignable second first then second
  else
    match first, second with
    | .objectArray firstDepth firstElement, .objectArray secondDepth secondElement =>
        if firstDepth = secondDepth then
          .objectArray firstDepth (hierarchy.commonSuperclass firstElement secondElement)
        else .object .object
    | .object firstName, .object secondName =>
        .object (hierarchy.commonSuperclass firstName secondName)
    | _, _ => .object .object

end Hierarchy
end StackMaps
