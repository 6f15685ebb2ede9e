import StackMaps.Access
import StackMaps.Body.Basic
import StackMaps.Slots.Basic

/-!
# Methods and classes

A class has methods, and methods have bodies unless they are abstract or native.
The receiver and the parameters of a method are its first local variables.
-/

namespace StackMaps

/-- A method. -/
structure Method where
  name : UnqualifiedName
  descriptor : MethodDescriptor
  flags : MethodFlags
  body : Option Body
  deriving DecidableEq

namespace Method

/-- Has the method a receiver? -/
def hasReceiver (method : Method) : Bool :=
  !method.flags.isStatic

/-- The number of local slots at the entry. -/
def startLocals (method : Method) : Nat :=
  method.descriptor.parameterLength method.hasReceiver

/-- The type of the receiver. It is uninitialized in a constructor. -/
def receiver (thisClass : BinaryName) (method : Method) : SlotType :=
  if method.name = UnqualifiedName.init then .uninitializedThis
  else .object (.object thisClass)

/-- The local slots at the entry. -/
def typedStartLocals (thisClass : BinaryName) (method : Method) : List Slot :=
  (if method.hasReceiver then [some (method.receiver thisClass)] else []) ++
    method.descriptor.parameterSlots.map fun slot =>
      match slot with
      | some type => some (.ofFieldType type)
      | none => some .top

end Method

/-- A class with its methods. Only the root class has no superclass. -/
structure ClassDefinition where
  name : BinaryName
  superclass : Option BinaryName
  interfaces : List BinaryName
  flags : ClassFlags
  methods : List Method
  deriving DecidableEq

/-- Classes with the bodies of their methods. -/
structure Listing where
  classes : List ClassDefinition
  deriving DecidableEq

end StackMaps
