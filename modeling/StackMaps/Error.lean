import StackMaps.Label
import StackMaps.Text.Quoted

/-!
# Errors

Everything that can go wrong between a listing and its stack map tables.
-/

namespace StackMaps

/-- A reason for which an operation fails. -/
inductive Error
  /-- Reading or writing a file failed. -/
  | inputOutput (reason : String)
  /-- A listing does not have the form of one. -/
  | malformedListing (line : Nat) (reason : String)
  /-- A text is not a name. -/
  | malformedName (name : String)
  /-- A text is not a descriptor. The offset counts bytes. -/
  | malformedDescriptor (offset : Nat) (reason : String)
  /-- A label is used but stands nowhere in the body. -/
  | unplacedLabel (label : Label)
  /-- A frame stands at a smaller offset than the one before it. -/
  | framesOutOfOrder (previous offset : UInt16)
  /-- Two frames stand at the same offset. -/
  | conflictingFrames (offset : UInt16)
  /-- The operand stack grows beyond what can be recorded. -/
  | maxStackOverflow (maxStack : Nat)
  /-- The locals take more slots than can be recorded. -/
  | maxLocalsOverflow (maxLocals : Nat)
  /-- There are more frames than a table can hold. -/
  | tooManyFrames (count : Nat)
  deriving DecidableEq

namespace Error

/-- The description of an error. -/
def message : Error → String
  | .inputOutput reason => reason
  | .malformedListing line reason => s!"line {line}: " ++ reason
  | .malformedName name => "malformed name " ++ Text.quoted name
  | .malformedDescriptor offset reason => reason ++ s!" (at offset {offset})"
  | .unplacedLabel label => s!"label {label.text} is never placed"
  | .framesOutOfOrder previous offset =>
      s!"frame at offset {offset} comes after frame at offset {previous}"
  | .conflictingFrames offset => s!"multiple frames at offset {offset}"
  | .maxStackOverflow maxStack => s!"max stack {maxStack} does not fit in 16 bits"
  | .maxLocalsOverflow maxLocals => s!"max locals {maxLocals} does not fit in 16 bits"
  | .tooManyFrames count => s!"{count} frames do not fit in 16 bits"

/-- The description of the error behind this one, if another one is behind it. -/
def source? : Error → Option String
  | .inputOutput reason => some reason
  | _ => none

end Error

end StackMaps
