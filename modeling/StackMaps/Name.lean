/-!
# Names

Classes have binary names such as `java/lang/Object`, whose segments are
separated by slashes; methods and fields have unqualified names. A name carries
the proof that it is well formed, so that the name of a class can always be
written into a descriptor and read back.
-/

namespace StackMaps

/-- Why a text is not a name. -/
inductive NameFault
  | emptyUnqualified
  | emptyBinary
  | reserved (name : String) (character : Char)
  | segment (name : String) (fault : NameFault)
  deriving DecidableEq

namespace NameFault

/-- The description of a fault. -/
def message : NameFault → String
  | .emptyUnqualified => "empty unqualified name"
  | .emptyBinary => "empty binary name"
  | .reserved name character => s!"unqualified name `{name}` contains `{character}`"
  | .segment name fault => s!"binary name `{name}`: " ++ fault.message

end NameFault

/-- The characters with a meaning in descriptors. -/
def isReserved (character : Char) : Bool :=
  character == '.' || character == ';' || character == '[' || character == '/'

/-- The name of a method or field. -/
structure UnqualifiedName where
  text : String
  wellFormed : text ≠ "" ∧ text.toList.all (!isReserved ·)
  deriving DecidableEq

namespace UnqualifiedName

/-- The first fault of a text as an unqualified name. -/
def fault? (text : String) : Option NameFault :=
  if text = "" then some .emptyUnqualified
  else (text.toList.find? isReserved).map (.reserved text)

/-- A text without faults is a name. -/
theorem wellFormed_of_fault?
    {text : String}
    (faultless : fault? text = none) :
    text ≠ "" ∧ text.toList.all (!isReserved ·) := by
  unfold fault? at faultless
  split at faultless
  · contradiction
  · rename_i nonempty
    refine ⟨nonempty, ?_⟩
    simpa [List.find?_eq_none] using faultless

/-- Read a text as an unqualified name. -/
def ofString (text : String) : Except NameFault UnqualifiedName :=
  match faulty : fault? text with
  | some fault => .error fault
  | none => .ok ⟨text, wellFormed_of_fault? faulty⟩

/-- The name of constructors. -/
def init : UnqualifiedName := ⟨"<init>", by decide⟩

/-- The name of class initializers. -/
def clinit : UnqualifiedName := ⟨"<clinit>", by decide⟩

end UnqualifiedName

/-- The segments of a text between its slashes. -/
def segments (text : String) : List String :=
  (text.toList.splitOnP (· == '/')).map String.ofList

/-- The name of a class or interface. -/
structure BinaryName where
  text : String
  wellFormed : ∀ segment ∈ segments text, UnqualifiedName.fault? segment = none
  deriving DecidableEq

namespace BinaryName

instance : Hashable BinaryName := ⟨fun name => hash name.text⟩

/-- The first fault of a text as a binary name. -/
def fault? (text : String) : Option NameFault :=
  if text = "" then some .emptyBinary
  else ((segments text).findSome? UnqualifiedName.fault?).map (.segment text)

/-- A text without faults is a name. -/
theorem wellFormed_of_fault?
    {text : String}
    (faultless : fault? text = none) :
    ∀ segment ∈ segments text, UnqualifiedName.fault? segment = none := by
  unfold fault? at faultless
  split at faultless
  · contradiction
  · simpa [List.findSome?_eq_none_iff] using faultless

/-- Read a text as a binary name. -/
def ofString (text : String) : Except NameFault BinaryName :=
  match faulty : fault? text with
  | some fault => .error fault
  | none => .ok ⟨text, wellFormed_of_fault? faulty⟩

/-- The last segment of a name. -/
def simpleName (name : BinaryName) : String :=
  (segments name.text).getLast?.getD name.text

/-- The superclass of every other class. -/
def object : BinaryName := ⟨"java/lang/Object", by decide⟩

/-- Implemented by every array type. -/
def cloneable : BinaryName := ⟨"java/lang/Cloneable", by decide⟩

/-- Implemented by every array type. -/
def serializable : BinaryName := ⟨"java/io/Serializable", by decide⟩

/-- The superclass of everything that can be thrown. -/
def throwable : BinaryName := ⟨"java/lang/Throwable", by decide⟩

/-- The class of text constants. -/
def string : BinaryName := ⟨"java/lang/String", by decide⟩

/-- The class of class constants. -/
def classObject : BinaryName := ⟨"java/lang/Class", by decide⟩

/-- The class of method type constants. -/
def methodType : BinaryName := ⟨"java/lang/invoke/MethodType", by decide⟩

/-- The class of method handle constants. -/
def methodHandle : BinaryName := ⟨"java/lang/invoke/MethodHandle", by decide⟩

end BinaryName

end StackMaps
