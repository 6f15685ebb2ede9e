import StackMaps.Frame.Table

/-!
# Bytes of stack map tables

The bytes of a table, as class files hold them: numbers are big-endian, lists
start with the number of their elements, and the tag of a frame holds what it can
of the frame. Writing stops at the first fault and keeps what has been written.
-/

namespace StackMaps

/-- Why a table has no bytes. -/
inductive EncodingFault
  /-- Only one to three locals can be chopped. -/
  | chop (count : Nat)
  /-- Only one to three locals can be appended. -/
  | append (count : Nat)
  /-- A list has more than 65535 elements. -/
  | tooLong (count : Nat)
  deriving DecidableEq

namespace EncodingFault

/-- The description of a fault. -/
def message : EncodingFault → String
  | .chop count => s!"cannot chop {count} locals"
  | .append count => s!"cannot append {count} locals"
  | .tooLong count => s!"sequence of {count} elements is too long"

end EncodingFault

/-- The bytes that have been written, and the fault that has stopped it. -/
structure Written where
  bytes : List UInt8
  fault : Option EncodingFault
  deriving DecidableEq

namespace Written

/-- Write bytes. -/
def ofBytes (bytes : List UInt8) : Written := ⟨bytes, none⟩

/-- Stop writing. -/
def stop (fault : EncodingFault) : Written := ⟨[], some fault⟩

/-- Write one thing after the other. -/
def andThen (first second : Written) : Written :=
  match first.fault with
  | some _ => first
  | none => ⟨first.bytes ++ second.bytes, second.fault⟩

/-- Write things one after the other. -/
def all (parts : List Written) : Written :=
  parts.foldr andThen (ofBytes [])

/-- Write a number of 16 bits. -/
def word (number : UInt16) : Written :=
  ofBytes [(number >>> 8).toUInt8, number.toUInt8]

/-- Write a list behind the number of its elements. -/
def list {α : Type} (write : α → Written) (elements : List α) : Written :=
  if 65535 < elements.length then stop (.tooLong elements.length)
  else (word (UInt16.ofNat elements.length)).andThen (all (elements.map write))

end Written

/-- The tag of a type. -/
def EncodedType.tag : EncodedType → UInt8
  | .top => 0
  | .integer => 1
  | .float => 2
  | .double => 3
  | .long => 4
  | .null => 5
  | .uninitializedThis => 6
  | .object _ => 7
  | .uninitialized _ => 8

/-- Write a type: its tag with the class or the offset behind it. -/
def EncodedType.write (type : EncodedType) : Written :=
  let tag := Written.ofBytes [EncodedType.tag type]
  match type with
  | .object index => tag.andThen (.word index)
  | .uninitialized offset => tag.andThen (.word offset)
  | _ => tag

namespace EncodedFrame

/-- Write the tag for a short distance, or another tag and the distance. -/
def writeDelta (base extended : UInt8) (delta : UInt16) : Written :=
  if delta ≤ 63 then .ofBytes [base + delta.toUInt8]
  else (Written.ofBytes [extended]).andThen (.word delta)

/-- Write a frame. -/
def write (encoded : EncodedFrame) : Written :=
  let delta := encoded.offsetDelta
  match encoded.frame with
  | .same none => writeDelta 0 251 delta
  | .same (some type) => (writeDelta 64 247 delta).andThen (EncodedType.write type)
  | .chop count =>
      if 1 ≤ count && count ≤ 3 then
        (Written.ofBytes [251 - count]).andThen (.word delta)
      else .stop (.chop count.toNat)
  | .append locals =>
      if 1 ≤ locals.length && locals.length ≤ 3 then
        ((Written.ofBytes [251 + UInt8.ofNat locals.length]).andThen (.word delta)).andThen
          (.all (locals.map EncodedType.write))
      else .stop (.append locals.length)
  | .full locals stack =>
      ((Written.ofBytes [255]).andThen (.word delta)).andThen
        ((Written.list EncodedType.write locals).andThen
          (Written.list EncodedType.write stack))

end EncodedFrame

/-- Write a table. -/
def StackMapTable.write (table : StackMapTable) : Written :=
  Written.list EncodedFrame.write table.frames

end StackMaps
