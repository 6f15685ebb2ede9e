/-!
# Access flags

Classes and methods carry sets of access flags. A flag has one bit and one
keyword, and the order of the two tables is the order in which the keywords of
a set are written.
-/

namespace StackMaps

/-- The keywords of a kind of flags with their bits. -/
abbrev FlagTable := List (String × UInt16)

namespace FlagTable

/-- The bits that belong to some flag. -/
def mask (table : FlagTable) : UInt16 :=
  table.foldl (fun bits flag => bits ||| flag.2) 0

/-- The bit of a keyword. -/
def bit? (table : FlagTable) (keyword : String) : Option UInt16 :=
  table.lookup keyword

/-- The keywords of the bits that are set. -/
def keywords (table : FlagTable) (bits : UInt16) : List String :=
  (table.filter fun flag => bits &&& flag.2 != 0).map (·.1)

end FlagTable

/-- The flags of classes. -/
def classFlagTable : FlagTable := [
  ("public", 0x0001),
  ("final", 0x0010),
  ("super", 0x0020),
  ("interface", 0x0200),
  ("abstract", 0x0400),
  ("synthetic", 0x1000),
  ("annotation", 0x2000),
  ("enum", 0x4000),
  ("module", 0x8000)]

/-- The flags of methods. -/
def methodFlagTable : FlagTable := [
  ("public", 0x0001),
  ("private", 0x0002),
  ("protected", 0x0004),
  ("static", 0x0008),
  ("final", 0x0010),
  ("synchronized", 0x0020),
  ("bridge", 0x0040),
  ("varargs", 0x0080),
  ("native", 0x0100),
  ("abstract", 0x0400),
  ("strict", 0x0800),
  ("synthetic", 0x1000)]

/-- A set of class flags. -/
structure ClassFlags where
  bits : UInt16
  deriving DecidableEq

namespace ClassFlags

/-- No flag at all. -/
def empty : ClassFlags := ⟨0⟩

/-- The known flags among some bits. -/
def ofBits (bits : UInt16) : ClassFlags := ⟨bits &&& classFlagTable.mask⟩

/-- The flag of a keyword. -/
def ofKeyword? (keyword : String) : Option ClassFlags :=
  (classFlagTable.bit? keyword).map ClassFlags.mk

/-- The keywords of the flags that are set. -/
def keywords (flags : ClassFlags) : List String :=
  classFlagTable.keywords flags.bits

/-- All flags of two sets. -/
def union (left right : ClassFlags) : ClassFlags := ⟨left.bits ||| right.bits⟩

/-- Is the interface flag set? -/
def isInterface (flags : ClassFlags) : Bool := flags.bits &&& 0x0200 != 0

end ClassFlags

/-- A set of method flags. -/
structure MethodFlags where
  bits : UInt16
  deriving DecidableEq

namespace MethodFlags

/-- No flag at all. -/
def empty : MethodFlags := ⟨0⟩

/-- The known flags among some bits. -/
def ofBits (bits : UInt16) : MethodFlags := ⟨bits &&& methodFlagTable.mask⟩

/-- The flag of a keyword. -/
def ofKeyword? (keyword : String) : Option MethodFlags :=
  (methodFlagTable.bit? keyword).map MethodFlags.mk

/-- The keywords of the flags that are set. -/
def keywords (flags : MethodFlags) : List String :=
  methodFlagTable.keywords flags.bits

/-- All flags of two sets. -/
def union (left right : MethodFlags) : MethodFlags := ⟨left.bits ||| right.bits⟩

/-- Is the static flag set? -/
def isStatic (flags : MethodFlags) : Bool := flags.bits &&& 0x0008 != 0

/-- Is the abstract or the native flag set? Such methods have no body. -/
def isBodiless (flags : MethodFlags) : Bool := flags.bits &&& 0x0500 != 0

end MethodFlags

end StackMaps
